import FlatTree.Proofs.Flat.Siblings
import FlatTree.Proofs.Store.Assignment

/-!
# Where parents, children and siblings agree

In every store that edits make, whatever a node names as its flat parent has it as a flat child.  The
other way round there is one exception.  A slot may host a shadow root, and if it has no assigned nodes,
it still shows its own children, which from below are children of a host that are not assigned.  What is
shown that way has no flat parent in return, and steps between siblings that come to it are not undone.
-/

namespace FlatTree.Store

open Relation

/-- A flat child has its flat parent, or is shown through a slot that hosts a shadow root.  Steps to the
next and to the previous sibling are inverse but for such nodes.  So the relations agree with each other in
every store where no slot with a shadow root shows a child of its own. -/
theorem flat_relations_agree (edits : List Edit) :
    let tree := (ofEdits edits).toTree
    (∀ node parent, tree.isSlot node = false → tree.isSlot parent = false →
      tree.nodeType parent ≠ .shadowRoot →
        (node ∈ tree.flatChildren parent ↔
          tree.flatParent node = some parent ∨ tree.ShownThroughHost parent node)) ∧
    (∀ left right, tree.flatNext left = some right → tree.flatPrevious right = some left ∨
      ∃ parent, tree.flatParent left = some parent ∧ tree.ShownThroughHost parent right) ∧
    (∀ left right, tree.flatPrevious right = some left → tree.flatNext left = some right ∨
      ∃ parent, tree.flatParent right = some parent ∧ tree.ShownThroughHost parent left) ∧
    ((∀ slot child, ¬ tree.ShowsAsHost slot child) → tree.Agrees) := by
  intro tree
  have hlinked : tree.Linked := (consistent_ofEdits edits).linked_toTree
  have hslots : ∀ slot, tree.isSlot slot = true → slot ∈ tree.nodes := fun _ => mem_nodes_of_isSlot
  refine ⟨?_, ?_, ?_, hlinked.agrees hslots⟩
  · intro node parent hnode hparent htype
    exact hlinked.mem_flatChildren_iff_flatParent hslots hnode
      (NodeTree.standsAlone_of_not_slot hparent htype)
  · exact fun left right => hlinked.flatPrevious_of_flatNext hslots
  · exact fun left right => hlinked.flatNext_of_flatPrevious hslots

/-- Node 1 has node 3 and slot 4 in its shadow tree.  The slot hosts a shadow root of its own and has node
6 as a child. -/
def slotHost : List Edit :=
  [.createElement (some htmlNamespace) "div", .append 0 1, .attachShadow 1 .opened,
    .createElement (some htmlNamespace) "b", .append 2 3,
    .createElement (some htmlNamespace) "slot", .append 2 4, .attachShadow 4 .opened,
    .createElement (some htmlNamespace) "p", .append 4 6]

/-- The same with a child of node 1, which is assigned to slot 4. -/
def filledSlotHost : List Edit :=
  slotHost ++ [.createText "text", .append 1 7]

/-- Through the slot node 6 is the next sibling of node 3.  Once the slot has an assigned node, node 6 is no
longer shown, and everything agrees. -/
theorem flat_relations_agree_slotHost :
    (ofEdits slotHost).toTree.flatParent 3 = some 1 ∧
      (ofEdits slotHost).toTree.flatNext 3 = some 6 ∧
      (ofEdits slotHost).toTree.ShownThroughHost 1 6 ∧
      (ofEdits filledSlotHost).assignedNodes 4 = [7] ∧
      (ofEdits filledSlotHost).toTree.Agrees := by
  obtain ⟨-, hnext, -⟩ := flat_relations_agree slotHost
  have hparent : (ofEdits slotHost).toTree.flatParent 3 = some 1 := by decide +kernel
  have hright : (ofEdits slotHost).toTree.flatNext 3 = some 6 := by decide +kernel
  have hnone : (ofEdits slotHost).toTree.flatPrevious 6 = none := by decide +kernel
  have hhost : (ofEdits slotHost).toTree.ShownThroughHost 1 6 := by
    rcases hnext 3 6 hright with hprevious | ⟨parent, hshared, hhost⟩
    · rw [hnone] at hprevious
      contradiction
    · rw [hparent] at hshared
      cases hshared
      exact hhost
  obtain ⟨-, -, -, hagrees⟩ := flat_relations_agree filledSlotHost
  have hfilled : ∀ slot ∈ List.range (ofEdits filledSlotHost).size,
      (ofEdits filledSlotHost).isSlot slot = true →
        (ofEdits filledSlotHost).assignedNodes slot ≠ [] := by
    decide +kernel
  refine ⟨hparent, hright, hhost, by decide +kernel, hagrees ?_⟩
  rintro slot child ⟨⟨hslot, -⟩, hempty, -⟩
  exact hfilled slot (mem_nodes_of_isSlot hslot) hslot hempty

/-- Node 1 has node 6 as a flat child, but node 6 has no flat parent, and no previous sibling either. -/
theorem slotHost_disagrees :
    (ofEdits slotHost).isSlot 6 = false ∧ (ofEdits slotHost).isSlot 1 = false ∧
      (ofEdits slotHost).nodeType 1 = .element ∧
      6 ∈ (ofEdits slotHost).toTree.flatChildren 1 ∧
      (ofEdits slotHost).toTree.flatParent 6 = none ∧
      (ofEdits slotHost).toTree.flatNext 3 = some 6 ∧
      (ofEdits slotHost).toTree.flatPrevious 6 = none ∧ ¬ (ofEdits slotHost).toTree.Agrees := by
  have hright : (ofEdits slotHost).toTree.flatNext 3 = some 6 := by decide +kernel
  have hnone : (ofEdits slotHost).toTree.flatPrevious 6 = none := by decide +kernel
  refine ⟨by decide +kernel, by decide +kernel, by decide +kernel, by decide +kernel,
    by decide +kernel, hright, hnone, fun hagrees => ?_⟩
  rw [hagrees.flatNext_iff_flatPrevious, hnone] at hright
  contradiction

end FlatTree.Store
