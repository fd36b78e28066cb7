import FlatTree.Proofs.Store.Ancestry
import FlatTree.Proofs.Store.Assignment
import FlatTree.Query.Basic

/-!
# Walks over flat parents end

A flat parent need not stand above a node: an assigned node is first followed down to its slot, in the
shadow tree of its parent, and maybe further down from there.  But whatever lies below that parent leads
back to it, so the way outward from a node always comes to the node above it.  In an acyclic store the ways
outward end, and walks over flat parents, which take several steps outward at a time, end with them.
-/

namespace FlatTree.Store

open Query Relation Selector

/-- The next node on the way to a flat parent: the slot to which a node is assigned, or else the node
above. -/
def outward (store : Store) (node : Nat) : Option Nat :=
  (store.assignedSlot node).or (store.above node)

variable {store : Store}

theorem outward_of_assignedSlot {node slot : Nat} (hassigned : store.assignedSlot node = some slot) :
    store.outward node = some slot := by
  rw [outward, hassigned, Option.some_or]

theorem outward_of_not_assigned {node : Nat} (hassigned : store.assignedSlot node = none) :
    store.outward node = store.above node := by
  rw [outward, hassigned, Option.none_or]

variable (hconsistent : store.Consistent)

include hconsistent

/-- A slot lies below the parent of the nodes that are assigned to it. -/
theorem Consistent.above_path_of_assignedSlot {node slot : Nat}
    (hassigned : store.assignedSlot node = some slot) :
    ∃ host root, store.above node = some host ∧ store.host root = some host ∧
      ReflTransGen (Leads store.above) slot root := by
  obtain ⟨name, host, root, -, hhost, hroot, hfirst⟩ := assignedSlot_eq_some_iff.mp hassigned
  refine ⟨host, root, hconsistent.above_of_parent hhost,
    (hconsistent.shadowRoot_iff host root).mp hroot, ?_⟩
  refine ReflTransGen.mono ?_ _ _ (hconsistent.reflTransGen_of_mem_listTree (mem_firstSlot hfirst).1)
  exact fun below upper hparent => hconsistent.above_of_parent hparent

theorem Consistent.assignedSlot_of_host {root host : Nat} (hhost : store.host root = some host) :
    store.assignedSlot root = none := by
  have hnone := hconsistent.parent_eq_none root ((hconsistent.nodeType_iff root).mpr ⟨host, hhost⟩)
  cases hassigned : store.assignedSlot root with
  | none => rfl
  | some slot =>
      obtain ⟨_, parent, _, _, hparent, -⟩ := assignedSlot_eq_some_iff.mp hassigned
      rw [hnone] at hparent
      contradiction

theorem Consistent.lt_size_of_outward {node next : Nat} (hstep : store.outward node = some next) :
    node < store.size ∧ next < store.size := by
  cases hassigned : store.assignedSlot node with
  | none =>
      rw [outward_of_not_assigned hassigned] at hstep
      exact hconsistent.lt_size_of_above hstep
  | some slot =>
      rw [outward_of_assignedSlot hassigned] at hstep
      cases hstep
      obtain ⟨host, -, habove, -⟩ := hconsistent.above_path_of_assignedSlot hassigned
      have hslot := mem_nodes_of_isSlot (hconsistent.isSlot_of_assigned hassigned)
      exact ⟨(hconsistent.lt_size_of_above habove).1, List.mem_range.mp hslot⟩

/-- The way outward from a node comes to the node above it. -/
theorem Consistent.outward_path_to_above {levels upper node : Nat}
    (hspans : SpansWithin store.shownBelow levels upper) (habove : store.above node = some upper) :
    ReflTransGen (Leads store.outward) node upper := by
  -- The detour over a slot stays below the upper node, so the induction is on the levels below that one.
  induction levels generalizing upper node with
  | zero => contradiction
  | succ levels ih =>
      cases hassigned : store.assignedSlot node with
      | none => exact .single ((outward_of_not_assigned hassigned).trans habove)
      | some slot =>
          obtain ⟨host, root, hhost, hroot, hslot⟩ := hconsistent.above_path_of_assignedSlot hassigned
          obtain rfl : host = upper := Option.some.inj (hhost.symm.trans habove)
          have hrootAbove := hconsistent.above_of_host hroot
          have hbelow := hspans root (hconsistent.mem_shownBelow_iff.mpr hrootAbove)
          have hinside (inner : Nat) (hpath : ReflTransGen (Leads store.above) inner root) :
              ReflTransGen (Leads store.outward) inner root := by
            induction hpath using ReflTransGen.head_induction_on with
            | refl => exact .refl
            | head hstep hrest hup =>
                exact (ih (hbelow.of_path (hconsistent.below_path_iff.mpr hrest)) hstep).trans hup
          have hlast : store.outward root = some host :=
            (outward_of_not_assigned (hconsistent.assignedSlot_of_host hroot)).trans hrootAbove
          exact .head (outward_of_assignedSlot hassigned) ((hinside slot hslot).tail hlast)

theorem Consistent.exists_top (hacyclic : store.Acyclic) (node : Nat) :
    ∃ top, ReflTransGen (Leads store.above) node top ∧ store.above top = none := by
  have hends : EndsWithin store.above (List.range store.size).length node := by
    apply endsWithin_of_acyclic
    · intro other hpath
      obtain ⟨before, -, hstep⟩ := TransGen.tail'_iff.mp hpath
      exact List.mem_range.mpr (hconsistent.lt_size_of_above hstep).2
    · exact fun other _ => hacyclic other
  exact hends.exists_last

/-- In an acyclic store the way outward never comes back to a node. -/
theorem Consistent.acyclic_outward (hacyclic : store.Acyclic) (node : Nat) :
    ¬ TransGen (Leads store.outward) node node := by
  obtain ⟨top, hpath, htop⟩ := hconsistent.exists_top hacyclic node
  have hout : ReflTransGen (Leads store.outward) node top := by
    induction hpath using ReflTransGen.head_induction_on with
    | refl => exact .refl
    | @head below upper hstep _ ih =>
        exact (hconsistent.outward_path_to_above (hconsistent.spansWithin hacyclic upper) hstep).trans ih
  refine not_transGen_of_reflTransGen_none ?_ hout
  cases hassigned : store.assignedSlot top with
  | none => rw [outward_of_not_assigned hassigned, htop]
  | some slot =>
      obtain ⟨host, -, hhost, -⟩ := hconsistent.above_path_of_assignedSlot hassigned
      rw [htop] at hhost
      contradiction

/-! ## Flat parents -/

theorem Consistent.outward_of_slotAbove {node slot : Nat}
    (hslot : store.toTree.slotAbove node = some slot) : store.outward node = some slot := by
  rcases NodeTree.assignedSlot_of_slotAbove hslot with hassigned | ⟨hassigned, hparent⟩
  · exact outward_of_assignedSlot hassigned
  · exact (outward_of_not_assigned hassigned).trans (hconsistent.above_of_parent hparent)

theorem Consistent.outward_path_of_parentOutside {top parent : Nat}
    (hnone : store.toTree.slotAbove top = none)
    (houtside : store.toTree.parentOutside top = some parent) :
    TransGen (Leads store.outward) top parent := by
  have hassigned : store.assignedSlot top = none := NodeTree.assignedSlot_eq_none_of_slotAbove hnone
  obtain ⟨above, habove⟩ := NodeTree.exists_parent_of_parentOutside houtside
  have hstep : store.outward top = some above :=
    (outward_of_not_assigned hassigned).trans (hconsistent.above_of_parent habove)
  rw [NodeTree.parentOutside, habove] at houtside
  by_cases htype : store.toTree.nodeType above = .shadowRoot
  · have hhost : store.toTree.host above = some parent := by simpa [htype] using houtside
    have hlast : store.outward above = some parent :=
      (outward_of_not_assigned (hconsistent.assignedSlot_of_host hhost)).trans
        (hconsistent.above_of_host hhost)
    exact .tail (.single hstep) hlast
  · simp only [htype, if_false, Option.ite_none_left_eq_some, Option.some.injEq] at houtside
    rw [← houtside.2]
    exact .single hstep

/-- A flat parent is one or more steps outward. -/
theorem Consistent.outward_path_of_flatParent {node parent : Nat}
    (hparent : store.toTree.flatParent node = some parent) :
    TransGen (Leads store.outward) node parent := by
  obtain ⟨top, hpath, hnone, houtside⟩ := NodeTree.leaveSlots_eq_some_iff.mp hparent
  refine TransGen.trans_right (ReflTransGen.mono ?_ _ _ hpath)
    (hconsistent.outward_path_of_parentOutside hnone houtside)
  exact fun below slot hstep => hconsistent.outward_of_slotAbove hstep.2

theorem Consistent.acyclic_flatParent (hacyclic : store.Acyclic) (node : Nat) :
    ¬ TransGen (Leads store.toTree.flatParent) node node := by
  intro hcycle
  apply hconsistent.acyclic_outward hacyclic node
  exact TransGen.closed (fun _ _ hparent => hconsistent.outward_path_of_flatParent hparent) _ _ hcycle

theorem Consistent.lt_size_of_flatParent {node parent : Nat}
    (hparent : store.toTree.flatParent node = some parent) :
    node < store.size ∧ parent < store.size := by
  have hpath := hconsistent.outward_path_of_flatParent hparent
  constructor
  · obtain ⟨next, hfirst, -⟩ := TransGen.head'_iff.mp hpath
    exact (hconsistent.lt_size_of_outward hfirst).1
  · obtain ⟨before, -, hlast⟩ := TransGen.tail'_iff.mp hpath
    exact (hconsistent.lt_size_of_outward hlast).2

/-- The nodes that are met on the way up are others than the first one, so they are fewer than all. -/
theorem Consistent.endsWithin_flatParent (hacyclic : store.Acyclic) (node : Nat) :
    EndsWithin store.toTree.flatParent (store.size - 1) node := by
  by_cases hnode : node < store.size
  · have hends : EndsWithin store.toTree.flatParent ((List.range store.size).erase node).length node := by
      apply endsWithin_of_acyclic
      · intro other hpath
        have hne : other ≠ node := by
          rintro rfl
          exact hconsistent.acyclic_flatParent hacyclic other hpath
        obtain ⟨before, -, hlast⟩ := TransGen.tail'_iff.mp hpath
        rw [List.mem_erase_of_ne hne]
        exact List.mem_range.mpr (hconsistent.lt_size_of_flatParent hlast).2
      · exact fun other _ => hconsistent.acyclic_flatParent hacyclic other
    rwa [List.length_erase_of_mem (List.mem_range.mpr hnode), List.length_range] at hends
  · have hends : EndsWithin store.toTree.flatParent 0 node := by
      rw [EndsWithin, Option.eq_none_iff_forall_ne_some]
      exact fun parent hparent => hnode (hconsistent.lt_size_of_flatParent hparent).1
    exact hends.mono (Nat.zero_le _)

/-! ## Searches among flat ancestors -/

theorem Consistent.searchEnds_nearest (hacyclic : store.Acyclic) (list : SelectorList)
    (context : Option Nat) :
    SearchEnds store.toTree.flatParent (holdsAt store.toTree list) (context.getD 0)
      (nearest store.toTree list context) := by
  have hlength : store.toTree.nodes.length = store.size := List.length_range
  apply searchEnds_of_endsWithin (holdsAt store.toTree list)
  rw [hlength]
  exact (hconsistent.endsWithin_flatParent hacyclic _).mono (Nat.sub_le _ _)

omit hconsistent in
theorem related_descendant (node : Nat) : store.toTree.flatView.related .descendant node =
    walk store.toTree.flatParent store.size node := by
  have hlength : store.toTree.nodes.length = store.size := List.length_range
  exact congrArg (fun steps => walk store.toTree.flatParent steps node) hlength

theorem Consistent.searchEnds_descendant (hacyclic : store.Acyclic) {node parent : Nat}
    (hparent : store.toTree.flatParent node = some parent) (passes : Nat → Bool) :
    SearchEnds store.toTree.flatParent passes parent
      ((store.toTree.flatView.related .descendant node).find? passes) := by
  have hends := hconsistent.endsWithin_flatParent hacyclic node
  rw [related_descendant]
  exact searchEnds_of_next passes (hends.mono (Nat.sub_le _ _)) hparent

omit hconsistent in
/-- In an acyclic store repeated steps to the flat parent are used up after as many steps as there are
nodes, and no node is met twice on the way.  So the search for the nearest match ends, and so does every
search among the flat ancestors of a node, with the results that the bounded walks give. -/
theorem flatParent_walk_ends (edits : List Edit) (hacyclic : (ofEdits edits).Acyclic) (node : Nat) :
    let store := ofEdits edits
    let tree := store.toTree
    (fun current => current.bind tree.flatParent)^[store.size] (some node) = none ∧
      (node :: walk tree.flatParent store.size node).Nodup ∧
      (∀ list, SearchEnds tree.flatParent (holdsAt tree list) node (nearest tree list (some node))) ∧
      (tree.flatParent node = none → tree.flatView.related .descendant node = []) ∧
      (∀ parent, tree.flatParent node = some parent → ∀ passes, SearchEnds tree.flatParent passes parent
        ((tree.flatView.related .descendant node).find? passes)) := by
  intro store tree
  have hconsistent : store.Consistent := consistent_ofEdits edits
  refine ⟨?_, nodup_cons_walk (hconsistent.acyclic_flatParent hacyclic) store.size node, ?_, ?_, ?_⟩
  · rw [← Nat.sub_add_cancel hconsistent.size_pos]
    exact iterate_bind_eq_none_iff.mpr (hconsistent.endsWithin_flatParent hacyclic node)
  · exact fun list => hconsistent.searchEnds_nearest hacyclic list (some node)
  · intro hnone
    exact (related_descendant node).trans (walk_of_none hnone store.size)
  · exact fun parent hparent passes => hconsistent.searchEnds_descendant hacyclic hparent passes

/-- Node 8 is assigned to slot 5 in the shadow tree of its parent 1.  The parent of that slot has a shadow
tree of its own, where the slot is assigned to slot 7 below node 6. -/
def nestedSlots : List Edit :=
  [.createElement (some htmlNamespace) "div", .append 0 1, .attachShadow 1 .opened,
    .createElement (some htmlNamespace) "article", .append 2 3, .attachShadow 3 .closed,
    .createElement (some htmlNamespace) "slot", .append 3 5,
    .createElement (some htmlNamespace) "section", .append 4 6,
    .createElement (some htmlNamespace) "slot", .append 6 7,
    .createElement (some htmlNamespace) "span", .append 1 8]

omit hconsistent in
/-- From node 8 the flat parents are 6, 3, 1 and the document, though its parent is node 1. -/
theorem flatParent_walk_ends_nestedSlots :
    (ofEdits nestedSlots).Acyclic ∧ (ofEdits nestedSlots).parent 8 = some 1 ∧
      walk (ofEdits nestedSlots).toTree.flatParent 9 8 = [6, 3, 1, 0] ∧
      (fun current => current.bind (ofEdits nestedSlots).toTree.flatParent)^[9] (some 8) = none := by
  have hacyclic : (ofEdits nestedSlots).Acyclic :=
    (consistent_ofEdits nestedSlots).acyclic_of_iterate (by decide +kernel)
  obtain ⟨hends, -⟩ := flatParent_walk_ends nestedSlots hacyclic 8
  have hsize : (ofEdits nestedSlots).size = 9 := by decide +kernel
  rw [hsize] at hends
  exact ⟨hacyclic, by decide +kernel, by decide +kernel, hends⟩

end FlatTree.Store
