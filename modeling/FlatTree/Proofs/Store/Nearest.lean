import FlatTree.Proofs.Selector.Extension
import FlatTree.Proofs.Store.Ascent

/-!
# The nearest match and the combinators

The search for the nearest match goes up from a node over flat parents, and the search for a descendant
combinator goes up from an element over its flat parents.  Both come by the same nodes, whether these are
elements or not.  So an element matches behind a descendant combinator exactly if the nearest match above it
exists, and behind a child combinator exactly if its flat parent matches.
-/

namespace FlatTree.Store

open Query Relation Selector

/-- The chain for everything that stands behind a combinator on its right. -/
def behind (combinator : Combinator) (chain : Selector.Complex) : Selector.Complex :=
  chain.extend combinator [.feature .universal]

variable {store : Store}

theorem holdsAt_singleton (chain : Selector.Complex) (node : Nat) :
    holdsAt store.toTree [chain] node =
      (store.toTree.isElement node && store.toTree.flatView.acceptsComplex node chain) := by
  rw [holdsAt, ElementView.acceptsList, List.any_cons, List.any_nil, Bool.or_false]

/-- What a chain accepts is an element. -/
theorem holdsAt_singleton_eq (chain : Selector.Complex) :
    holdsAt store.toTree [chain] = (store.toTree.flatView.acceptsComplex · chain) := by
  funext node
  have helement : store.toTree.flatView.isElement node = store.toTree.isElement node := rfl
  rw [holdsAt_singleton, ElementView.acceptsComplex, ElementView.acceptsCompound, helement]
  cases store.toTree.isElement node <;> rfl

/-- An element matches behind a combinator if one of the related nodes matches the chain. -/
theorem holdsAt_behind_iff {element : Nat} (helement : store.toTree.isElement element = true)
    (combinator : Combinator) (chain : Selector.Complex) :
    holdsAt store.toTree [behind combinator chain] element = true ↔
      ∃ node ∈ store.toTree.flatView.related combinator element,
        holdsAt store.toTree [chain] node = true := by
  have hviewed : store.toTree.flatView.isElement element = true := helement
  have heverything :
      store.toTree.flatView.acceptsCompound element [.feature .universal] = true := by
    rw [ElementView.acceptsCompound, hviewed]
    rfl
  rw [holdsAt_singleton_eq, holdsAt_singleton_eq]
  dsimp only
  rw [behind, ElementView.acceptsComplex_extend, heverything, Bool.true_and, List.any_eq_true]

/-- Both searches go up from the parent. -/
theorem Consistent.nearest_eq_find?_related (hconsistent : store.Consistent)
    (hacyclic : store.Acyclic) {node parent : Nat}
    (hparent : store.toTree.flatParent node = some parent) (list : SelectorList) :
    nearest store.toTree list (some parent) =
      (store.toTree.flatView.related .descendant node).find? (holdsAt store.toTree list) :=
  (hconsistent.searchEnds_nearest hacyclic list (some parent)).unique
    (hconsistent.searchEnds_descendant hacyclic hparent (holdsAt store.toTree list))

theorem Consistent.holdsAt_behind_descendant_iff (hconsistent : store.Consistent)
    (hacyclic : store.Acyclic) {element : Nat} (helement : store.toTree.isElement element = true)
    (chain : Selector.Complex) :
    holdsAt store.toTree [behind .descendant chain] element = true ↔
      ∃ parent, store.toTree.flatParent element = some parent ∧
        ∃ found, nearest store.toTree [chain] (some parent) = some found := by
  rw [holdsAt_behind_iff helement]
  cases hparent : store.toTree.flatParent element with
  | none => simp [related_descendant, walk_of_none hparent]
  | some parent =>
      simp only [Option.some.injEq, exists_eq_left', ← Option.isSome_iff_exists,
        hconsistent.nearest_eq_find?_related hacyclic hparent, List.find?_isSome]

theorem holdsAt_behind_child_iff {element : Nat} (helement : store.toTree.isElement element = true)
    (chain : Selector.Complex) :
    holdsAt store.toTree [behind .child chain] element = true ↔
      ∃ parent, store.toTree.flatParent element = some parent ∧
        holdsAt store.toTree [chain] parent = true := by
  have hrelated : store.toTree.flatView.related .child element =
      (store.toTree.flatParent element).toList := rfl
  simp only [holdsAt_behind_iff helement, hrelated, Option.mem_toList]

/-- In an acyclic store the search for the nearest match ends.  It finds the first element among a node and
its flat ancestors, of whatever kind these are, that matches, and nothing exactly if none does.  An element
matches behind a descendant combinator exactly if there is a nearest match from its flat parent on, and
behind a child combinator exactly if its flat parent matches. -/
theorem nearest_agrees_with_combinators (edits : List Edit) (hacyclic : (ofEdits edits).Acyclic) :
    let store := ofEdits edits
    let tree := store.toTree
    (∀ list context, SearchEnds tree.flatParent (holdsAt tree list) (context.getD 0)
      (nearest tree list context)) ∧
    (∀ list context first, nearest tree list context = some first ↔
      FirstReached tree.flatParent (holdsAt tree list) (context.getD 0) first) ∧
    (∀ list context, nearest tree list context = none ↔
      ∀ last, ReflTransGen (Leads tree.flatParent) (context.getD 0) last →
        holdsAt tree list last = false) ∧
    (∀ chain element, tree.isElement element = true →
      (holdsAt tree [behind .descendant chain] element = true ↔
        ∃ parent, tree.flatParent element = some parent ∧
          ∃ found, nearest tree [chain] (some parent) = some found)) ∧
    ∀ chain element, tree.isElement element = true →
      (holdsAt tree [behind .child chain] element = true ↔
        ∃ parent, tree.flatParent element = some parent ∧ holdsAt tree [chain] parent = true) := by
  intro store tree
  have hconsistent : store.Consistent := consistent_ofEdits edits
  have hends := hconsistent.searchEnds_nearest hacyclic
  refine ⟨hends, ?_, ?_, ?_, ?_⟩
  · exact fun list context => (hends list context).eq_some_iff
  · exact fun list context => (hends list context).eq_none_iff
  · exact fun chain element helement =>
      hconsistent.holdsAt_behind_descendant_iff hacyclic helement chain
  · exact fun chain element helement => holdsAt_behind_child_iff helement chain

/-- Node 8 is slotted into a shadow tree that is slotted into another one, so that it stands in the
`section` with number 6, below the `article` with number 3. -/
theorem nearest_agrees_with_combinators_nestedSlots :
    let tree := (ofEdits nestedSlots).toTree
    let article : Selector.Complex := .last [.feature (.type "article")]
    (ofEdits nestedSlots).Acyclic ∧ tree.isElement 8 = true ∧ tree.flatParent 8 = some 6 ∧
      nearest tree [article] (some 6) = some 3 ∧
      holdsAt tree [behind .descendant article] 8 = true ∧
      holdsAt tree [behind .child article] 8 = false := by
  intro tree article
  have hacyclic : (ofEdits nestedSlots).Acyclic :=
    (consistent_ofEdits nestedSlots).acyclic_of_iterate (by decide +kernel)
  obtain ⟨-, hfirst, -, hdescendant, hchild⟩ :=
    nearest_agrees_with_combinators nestedSlots hacyclic
  have helement : tree.isElement 8 = true := by decide +kernel
  have hparent : tree.flatParent 8 = some 6 := by decide +kernel
  have hfound : nearest tree [article] (some 6) = some 3 := by
    refine (hfirst [article] (some 6) 3).mpr ⟨1, by decide +kernel, by decide +kernel, ?_⟩
    intro fewer hfewer other hother
    obtain rfl : fewer = 0 := Nat.lt_one_iff.mp hfewer
    cases hother
    decide +kernel
  refine ⟨hacyclic, helement, hparent, hfound, ?_, ?_⟩
  · exact (hdescendant article 8 helement).mpr ⟨6, hparent, 3, hfound⟩
  · rw [← Bool.not_eq_true, hchild article 8 helement]
    rintro ⟨parent, hother, hholds⟩
    obtain rfl : 6 = parent := Option.some.inj (hparent.symm.trans hother)
    revert hholds
    decide +kernel

end FlatTree.Store
