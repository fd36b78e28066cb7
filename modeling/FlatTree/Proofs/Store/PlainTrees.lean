import FlatTree.Proofs.Store.Selection
import FlatTree.Proofs.Store.TreeOrder

/-!
# Stores without shadow roots

As long as no shadow root is attached, nothing is a slot, whatever its name and its attributes are.  Then
parent and children in the flat tree are those of the store, and the flat descendants of a node are what
the store lists below it, in the same order.
-/

namespace FlatTree

open Relation

/-- The edit hangs a shadow root on a node. -/
def Edit.AttachesShadow : Edit → Prop
  | .attachShadow _ _ => True
  | _ => False

namespace NodeTree

variable {ν : Type} [DecidableEq ν] {tree : NodeTree ν}

/-- In a forest the order of the flat tree and the order of its lists of children are one. -/
theorem Forest.precedes_of_treePrecedes (hforest : tree.Forest) {first second : ν}
    (hordinary : ∀ node, tree.Ordinary node)
    (hprecedes : TreePrecedes tree.flatParent tree.flatChildren first second) :
    tree.Precedes first second := by
  rcases hprecedes with hbelow | ⟨common, left, right, hsublist, hleftPath, hrightPath⟩
  · exact .inl hbelow
  · have hnodup : (tree.flatChildren common).Nodup := nodup_flatChildren common
    have hleft := ((hforest.mem_flatChildren_iff common left (hordinary common)).mp
      (hsublist.subset (by simp))).2
    have hright := ((hforest.mem_flatChildren_iff common right (hordinary common)).mp
      (hsublist.subset (by simp))).2
    have hne := List.pairwise_iff_forall_sublist.mp hnodup hsublist
    have hlt := List.pairwise_iff_forall_sublist.mp (pairwise_idxOf_lt hnodup) hsublist
    exact .inr ⟨common, left, right, hforest.fork_of_ne hleft hright hleftPath hrightPath hne, hlt⟩

end NodeTree

namespace Store

variable {store : Store}

/-! ## Edits that attach no shadow root -/

theorem Consistent.shadowRoot_becomes_eq_none_iff (hconsistent : store.Consistent) {edit : Edit}
    {next : Store} (hnext : store.Becomes edit next) :
    (∀ node, next.shadowRoot node = none) ↔
      (∀ node, store.shadowRoot node = none) ∧ ¬ edit.AttachesShadow := by
  cases hnext with
  | created hcontent =>
      have hnot : ¬ edit.AttachesShadow := by
        cases edit <;> cases hcontent <;> exact id
      simp only [shadowRoot_create]
      exact (and_iff_left hnot).symm
  | appended hdone =>
      simp only [hconsistent.shadowRoot_append hdone]
      exact (and_iff_left not_false).symm
  | attributed hdone =>
      simp only [shadowRoot_setAttribute hdone]
      exact (and_iff_left not_false).symm
  | hosted hdone =>
      rename_i node root mode
      refine iff_of_false ?_ fun hnot => hnot.2 trivial
      intro hnone
      have hsome := shadowRoot_attachShadow hdone node
      rw [if_pos rfl] at hsome
      exact Option.some_ne_none _ (hsome.symm.trans (hnone node))

/-- No node hosts a shadow root as long as all attempts to attach one fail. -/
theorem shadowRoot_eq_none_iff (edits : List Edit) :
    (∀ node, (ofEdits edits).shadowRoot node = none) ↔
      ∀ front edit, front ++ [edit] <+: edits → edit.AttachesShadow →
        ∃ fault, ((ofEdits front).apply edit).1 = .error fault :=
  ofEdits_iff_forall_error (fun store => ∀ node, store.shadowRoot node = none) Edit.AttachesShadow
    shadowRoot_new (fun _ hconsistent _ _ hnext => hconsistent.shadowRoot_becomes_eq_none_iff hnext) edits

/-! ## The flat tree of a store without shadow roots -/

section Plain

variable (hintact : store.Intact) (hnone : ∀ node, store.shadowRoot node = none)

include hintact hnone

theorem Intact.nodeType_ne_shadowRoot (node : Nat) : store.nodeType node ≠ .shadowRoot := by
  intro htype
  obtain ⟨host, hhost⟩ := (hintact.nodeType_iff node).mp htype
  rw [← hintact.shadowRoot_iff, hnone] at hhost
  contradiction

theorem Intact.plain_toTree : store.toTree.Plain where
  nodeType := hintact.nodeType_ne_shadowRoot hnone
  shadowRoot := hnone
  isSlot := by
    intro node
    change store.isSlot node = false
    rw [isSlot, enclosingRoot, if_neg (hintact.nodeType_ne_shadowRoot hnone _)]
    exact Bool.and_false _
  assignedSlot := by
    intro node
    change store.assignedSlot node = none
    rw [assignedSlot]
    cases store.wantedSlot node with
    | none => rfl
    | some name => cases store.parent node with
      | none => rfl
      | some parent => simp [hnone]

theorem Intact.flatParent_eq : store.toTree.flatParent = store.parent :=
  funext (hintact.plain_toTree hnone).flatParent_eq

theorem Intact.flatChildren_eq : store.toTree.flatChildren = store.children :=
  funext fun node => (hintact.plain_toTree hnone).flatChildren_eq (hintact.nodup_children node)

theorem Intact.ordinary (node : Nat) : store.toTree.Ordinary node :=
  ⟨(hintact.plain_toTree hnone).isSlot node, hintact.nodeType_ne_shadowRoot hnone node⟩

theorem Intact.acyclic : store.Acyclic := by
  have habove : store.above = store.parent :=
    funext fun node => if_neg (hintact.nodeType_ne_shadowRoot hnone node)
  rw [Acyclic, habove]
  exact hintact.acyclic_parent

theorem Intact.forest : store.toTree.Forest :=
  hintact.forest_toTree (hintact.acyclic hnone) fun slot _ => hnone slot

omit hnone in
/-- All nodes below a node are listed. -/
theorem Intact.spansWithin_size (node : Nat) : SpansWithin store.children store.size node := by
  by_cases hnode : node < store.size
  · exact hintact.spansWithin_children hnode
  · have hspans : SpansWithin store.children 1 node := by
      intro next hnext
      rw [hintact.mem_children_iff] at hnext
      exact absurd (hintact.lt_size_of_parent hnext).2 hnode
    exact hspans.mono hintact.size_pos

omit hnone in
/-- A node is listed before its children, each with what is below it. -/
theorem Intact.descendants_eq (node : Nat) :
    store.descendants node = node :: (store.children node).flatMap store.descendants := by
  have hspans := hintact.spansWithin_size node
  have hdescendants : store.descendants = preorder store.children store.size :=
    funext fun node => listTree_eq_preorder store.size node
  obtain ⟨levels, hlevels⟩ := Nat.exists_eq_succ_of_ne_zero (Nat.ne_of_gt hintact.size_pos)
  rw [hdescendants, hlevels, preorder]
  rw [hlevels] at hspans
  congr 1
  apply List.flatMap_congr
  intro child hchild
  exact (preorder_of_spansWithin (hspans child hchild) levels.le_succ).symm

omit hnone in
/-- Behind a node all those are listed that have it among their ancestors. -/
theorem Intact.mem_tail_descendants_iff {node other : Nat} :
    other ∈ (store.descendants node).tail ↔ TransGen (Leads store.parent) other node := by
  have hforest := hintact.orderedForest
  have hlisted : store.descendants node = preorder store.children store.size node :=
    listTree_eq_preorder store.size node
  have hnodup := hforest.nodup_preorder store.size node
  have hmem : other ∈ preorder store.children store.size node ↔
      ReflTransGen (Leads store.parent) other node :=
    hforest.mem_preorder_iff (hintact.spansWithin_size node)
  rw [← hlisted, hintact.descendants_eq] at hnodup hmem
  rw [hintact.descendants_eq, List.tail_cons]
  rw [reflTransGen_iff_eq_or_transGen, List.mem_cons] at hmem
  constructor
  · intro hother
    rcases hmem.mp (.inr hother) with rfl | hpath
    · exact absurd hother (List.nodup_cons.mp hnodup).1
    · exact hpath
  · intro hpath
    rcases hmem.mpr (.inr hpath) with rfl | hother
    · exact absurd hpath (hintact.acyclic_parent other)
    · exact hother

/-- The flat descendants of a node are listed as in the store. -/
theorem Intact.flatDescendants_eq (node : Nat) :
    store.toTree.flatDescendants node = (store.descendants node).tail := by
  have hforest := hintact.forest hnone
  have hlisted : store.descendants node = preorder store.children store.size node :=
    listTree_eq_preorder store.size node
  have hordered : (store.descendants node).Pairwise store.toTree.Precedes := by
    rw [hlisted]
    refine (hintact.orderedForest.pairwise_preorder store.size node).imp ?_
    intro first second hprecedes
    apply hforest.precedes_of_treePrecedes (hintact.ordinary hnone)
    rwa [hintact.flatParent_eq hnone, hintact.flatChildren_eq hnone]
  apply eq_of_pairwise_of_mem_iff hforest.precedes_asymm
    (hforest.pairwise_flatDescendants (hintact.ordinary hnone node)) (hordered.sublist (List.tail_sublist _))
  intro other
  rw [hforest.mem_flatDescendants_iff (hintact.ordinary hnone node),
    and_iff_right (hintact.ordinary hnone other), hintact.flatParent_eq hnone,
    hintact.mem_tail_descendants_iff]

end Plain

end Store

end FlatTree
