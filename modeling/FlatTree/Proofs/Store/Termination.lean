import FlatTree.Proofs.Store.Ascent

/-!
# Searches and listings that end

Everything that follows the links of a store without a bound of its own ends in an acyclic store: the
searches among flat ancestors, the listing of a node with all nodes below it, and the outline.  The bounds
on their steps and levels are never what stops them.  In a store with a cycle such a search need not end.
-/

namespace FlatTree.Store

open Query Relation Selector

/-- Searches among flat ancestors end, and listings do not reach the bound on their levels. -/
structure Terminates (store : Store) : Prop where
  flatParent : ∀ node, EndsWithin store.toTree.flatParent store.size node
  nearest : ∀ list context, SearchEnds store.toTree.flatParent (holdsAt store.toTree list)
    (context.getD 0) (nearest store.toTree list context)
  descendant : ∀ node parent, store.toTree.flatParent node = some parent → ∀ passes,
    SearchEnds store.toTree.flatParent passes parent
      ((store.toTree.flatView.related .descendant node).find? passes)
  spans : ∀ node, SpansWithin store.shownBelow store.size node
  shadowIncluding : ∀ node levels, store.size ≤ levels →
    store.listIncluding levels node = store.shadowIncluding node
  outline : ∀ levels, store.size ≤ levels →
    store.outlineLines levels 0 0 = store.outlineLines store.size 0 0

variable {store : Store}

/-! ## Listings -/

theorem listIncluding_of_spansWithin {levels more : Nat} {node : Nat}
    (hspans : SpansWithin store.shownBelow levels node) (hle : levels ≤ more) :
    store.listIncluding more node = store.listIncluding levels node := by
  rw [listIncluding_eq_preorder, listIncluding_eq_preorder, preorder_of_spansWithin hspans hle]

theorem outlineLines_of_spansWithin {levels more depth : Nat} {node : Nat}
    (hspans : SpansWithin store.shownBelow levels node) (hle : levels ≤ more) :
    store.outlineLines more depth node = store.outlineLines levels depth node := by
  induction levels generalizing more depth node with
  | zero => contradiction
  | succ levels ih =>
      cases more with
      | zero => contradiction
      | succ more =>
          have hbelow : (store.shownBelow node).flatMap (store.outlineLines more (depth + 1)) =
              (store.shownBelow node).flatMap (store.outlineLines levels (depth + 1)) := by
            apply List.flatMap_congr
            intro next hnext
            exact ih (hspans next hnext) (Nat.le_of_succ_le_succ hle)
          simp only [outlineLines, hbelow]

/-! ## Acyclic stores -/

theorem Consistent.terminates (hconsistent : store.Consistent) (hacyclic : store.Acyclic) :
    store.Terminates where
  flatParent := by
    intro node
    exact (hconsistent.endsWithin_flatParent hacyclic node).mono (Nat.sub_le _ _)
  nearest := fun list context => hconsistent.searchEnds_nearest hacyclic list context
  descendant := fun _ _ hparent passes => hconsistent.searchEnds_descendant hacyclic hparent passes
  spans := hconsistent.spansWithin hacyclic
  shadowIncluding := by
    intro node levels hle
    exact listIncluding_of_spansWithin (hconsistent.spansWithin hacyclic node) hle
  outline := by
    intro levels hle
    exact outlineLines_of_spansWithin (hconsistent.spansWithin hacyclic 0) hle

/-- The stores in the making are all acyclic, so that all searches and listings end, exactly if no edit
was an append of a node that stood above its new parent. -/
theorem acyclic_and_terminates_iff (edits : List Edit) :
    (∀ front, front <+: edits → (ofEdits front).Acyclic ∧ (ofEdits front).Terminates) ↔
      ∀ front edit, front ++ [edit] <+: edits → ¬ (ofEdits front).Entangles edit := by
  rw [← acyclic_of_isPrefix_iff]
  constructor
  · exact fun hends front hfront => (hends front hfront).1
  · intro hacyclic front hfront
    exact ⟨hacyclic front hfront, (consistent_ofEdits front).terminates (hacyclic front hfront)⟩

/-- A host is moved with its shadow tree below another element, and its child into the shadow tree. -/
def movedHost : List Edit :=
  [.createElement (some htmlNamespace) "div", .append 0 1, .attachShadow 1 .opened,
    .createElement (some htmlNamespace) "section", .append 2 3, .createText "text", .append 1 4,
    .createElement (some htmlNamespace) "main", .append 0 5, .append 5 1, .append 3 4]

theorem acyclic_and_terminates_iff_movedHost :
    (∀ front edit, front ++ [edit] <+: movedHost → ¬ (ofEdits front).Entangles edit) ∧
      (ofEdits movedHost).parent 1 = some 5 ∧ (ofEdits movedHost).parent 4 = some 3 ∧
      (ofEdits movedHost).Terminates := by
  have hiterate : ∀ length ∈ List.range (movedHost.length + 1),
      ∀ node ∈ List.range (ofEdits (movedHost.take length)).size,
        (fun current => current.bind (ofEdits (movedHost.take length)).above)^[
          (ofEdits (movedHost.take length)).size] (some node) = none := by
    decide +kernel
  have hacyclic : ∀ front, front <+: movedHost → (ofEdits front).Acyclic := by
    intro front hfront
    have hlength := List.mem_range.mpr (Nat.lt_succ_of_le hfront.length_le)
    rw [List.prefix_iff_eq_take.mp hfront]
    exact (consistent_ofEdits _).acyclic_of_iterate (hiterate front.length hlength)
  have hclear := (acyclic_of_isPrefix_iff movedHost).mp hacyclic
  have hends := (acyclic_and_terminates_iff movedHost).mpr hclear movedHost (List.prefix_refl _)
  exact ⟨hclear, by decide +kernel, by decide +kernel, hends.2⟩

/-- A host that is appended to its own shadow root. -/
def hostInside : List Edit :=
  [.createElement (some htmlNamespace) "div", .attachShadow 1 .opened, .append 2 1]

/-- The append goes through, and the host stands above itself.  It is its own flat parent, so the search
for a paragraph among its flat ancestors never ends. -/
theorem hostInside_above_itself :
    ((ofEdits (hostInside.take 2)).append 2 1).1 = .ok () ∧
      TransGen (Leads (ofEdits hostInside).above) 1 1 ∧
      (ofEdits hostInside).toTree.flatParent 1 = some 1 ∧
      ∀ result, ¬ SearchEnds (ofEdits hostInside).toTree.flatParent
        (holdsAt (ofEdits hostInside).toTree [.last [.feature (.type "p")]]) 1 result := by
  have hhost : (ofEdits hostInside).above 1 = some 2 := by decide +kernel
  have hroot : (ofEdits hostInside).above 2 = some 1 := by decide +kernel
  have hback : (ofEdits hostInside).toTree.flatParent 1 = some 1 := by decide +kernel
  refine ⟨by decide +kernel, .head hhost (.single hroot), hback, ?_⟩
  exact not_searchEnds_of_leads_self hback (by decide +kernel)

end FlatTree.Store
