import FlatTree.Flat.Siblings
import FlatTree.Proofs.Flat.Coherence

/-!
# The tree below the document

What is shown are the nodes that the flat tree leads to from the document.  Where every shown child names
the node that shows it as its flat parent, the shown nodes are a tree: the walks over flat parents end at
the document, and those over previous elements at a first element, both within the number of nodes.
-/

namespace FlatTree.NodeTree

open Relation

variable {ν : Type} [DecidableEq ν]

/-- One node has the other among its flat children. -/
def Parents (tree : NodeTree ν) (parent node : ν) : Prop :=
  node ∈ tree.flatChildren parent

/-- The flat tree leads to a node from the document. -/
def Shown (tree : NodeTree ν) (node : ν) : Prop :=
  ReflTransGen tree.Parents tree.document node

/-- Flat parents lead back from what is shown to the document. -/
structure Rooted (tree : NodeTree ν) : Prop where
  flatParent_document : tree.flatParent tree.document = none
  flatParent_of_mem : ∀ parent node, tree.Shown parent → node ∈ tree.flatChildren parent →
    tree.flatParent node = some parent
  mem_nodes : ∀ node, tree.Shown node → node ∈ tree.nodes

variable {tree : NodeTree ν}

theorem shown_document : tree.Shown tree.document :=
  .refl

theorem Shown.child {parent node : ν} (hparent : tree.Shown parent)
    (hmem : node ∈ tree.flatChildren parent) : tree.Shown node :=
  hparent.tail hmem

theorem Shown.cases {node : ν} (hshown : tree.Shown node) :
    node = tree.document ∨ ∃ parent, tree.Shown parent ∧ node ∈ tree.flatChildren parent := by
  rcases hshown.cases_tail with hdocument | ⟨parent, hparent, hmem⟩
  · exact Or.inl hdocument
  · exact Or.inr ⟨parent, hparent, hmem⟩

/-! ## Places in a list -/

theorem idxOf_lt_of_mem_takeWhile {siblings : List ν} {node other : ν}
    (hother : other ∈ siblings.takeWhile (· ≠ node)) :
    siblings.idxOf other < siblings.idxOf node := by
  induction siblings with
  | nil => simp at hother
  | cons first siblings ih =>
      by_cases hnode : first = node
      · simp [hnode] at hother
      · rw [List.idxOf_cons_ne siblings hnode]
        by_cases hfirst : first = other
        · rw [List.idxOf_cons_eq siblings hfirst]
          exact Nat.succ_pos _
        · rw [List.idxOf_cons_ne siblings hfirst]
          apply Nat.succ_lt_succ
          apply ih
          simpa [List.takeWhile_cons, hnode, Ne.symm hfirst] using hother

theorem mem_of_previousElementAmong {siblings : List ν} {node other : ν}
    (hprevious : tree.previousElementAmong siblings node = some other) :
    node ∈ siblings ∧ other ∈ siblings ∧ siblings.idxOf other < siblings.idxOf node := by
  rw [previousElementAmong] at hprevious
  split at hprevious
  · rename_i hnode
    have hother := List.mem_reverse.mp (List.mem_of_find?_eq_some hprevious)
    exact ⟨hnode, (List.takeWhile_sublist _).subset hother, idxOf_lt_of_mem_takeWhile hother⟩
  · contradiction

/-! ## Walks -/

namespace Rooted

variable (hrooted : tree.Rooted)

include hrooted

theorem mem_of_flatParent {node parent : ν} (hshown : tree.Shown node)
    (hparent : tree.flatParent node = some parent) :
    tree.Shown parent ∧ node ∈ tree.flatChildren parent := by
  rcases hshown.cases with rfl | ⟨above, habove, hmem⟩
  · rw [hrooted.flatParent_document] at hparent
    contradiction
  · rw [hrooted.flatParent_of_mem above node habove hmem] at hparent
    cases hparent
    exact ⟨habove, hmem⟩

theorem shown_of_transGen_flatParent {node other : ν} (hshown : tree.Shown node)
    (hpath : TransGen (Leads tree.flatParent) node other) : tree.Shown other := by
  induction hpath with
  | single hparent => exact (hrooted.mem_of_flatParent hshown hparent).1
  | tail _ hparent ih => exact (hrooted.mem_of_flatParent ih hparent).1

theorem flatParent_path {node : ν} (hshown : tree.Shown node) :
    ReflTransGen (Leads tree.flatParent) node tree.document := by
  induction hshown with
  | refl => exact .refl
  | @tail parent node hparent hmem ih =>
      exact .head (hrooted.flatParent_of_mem parent node hparent hmem) ih

theorem endsWithin_flatParent {node : ν} (hshown : tree.Shown node) :
    EndsWithin tree.flatParent tree.nodes.length node := by
  apply endsWithin_of_acyclic
  · intro other hpath
    exact hrooted.mem_nodes other (hrooted.shown_of_transGen_flatParent hshown hpath)
  · intro other hpath
    exact not_transGen_of_reflTransGen_none hrooted.flatParent_document
      (hrooted.flatParent_path (hrooted.shown_of_transGen_flatParent hshown hpath))

/-- Previous elements are siblings that stand further in front. -/
theorem of_transGen_flatPreviousElement {node other : ν} (hshown : tree.Shown node)
    (hpath : TransGen (Leads tree.flatPreviousElement) node other) :
    ∃ parent, tree.Shown parent ∧ other ∈ tree.flatChildren parent ∧
      (tree.flatChildren parent).idxOf other < (tree.flatChildren parent).idxOf node := by
  induction hpath with
  | single hprevious =>
      obtain ⟨parent, hparent, hamong⟩ := Option.bind_eq_some_iff.mp hprevious
      obtain ⟨-, hother, hlt⟩ := mem_of_previousElementAmong hamong
      exact ⟨parent, (hrooted.mem_of_flatParent hshown hparent).1, hother, hlt⟩
  | @tail middle other _ hprevious ih =>
      obtain ⟨parent, hparent, hmiddle, hlt⟩ := ih
      obtain ⟨same, hsame, hamong⟩ := Option.bind_eq_some_iff.mp hprevious
      rw [hrooted.flatParent_of_mem parent middle hparent hmiddle] at hsame
      cases hsame
      obtain ⟨-, hother, hless⟩ := mem_of_previousElementAmong hamong
      exact ⟨parent, hparent, hother, Nat.lt_trans hless hlt⟩

theorem shown_of_transGen_flatPreviousElement {node other : ν} (hshown : tree.Shown node)
    (hpath : TransGen (Leads tree.flatPreviousElement) node other) : tree.Shown other := by
  obtain ⟨parent, hparent, hother, -⟩ := hrooted.of_transGen_flatPreviousElement hshown hpath
  exact hparent.child hother

theorem endsWithin_flatPreviousElement {node : ν} (hshown : tree.Shown node) :
    EndsWithin tree.flatPreviousElement tree.nodes.length node := by
  apply endsWithin_of_acyclic
  · intro other hpath
    exact hrooted.mem_nodes other (hrooted.shown_of_transGen_flatPreviousElement hshown hpath)
  · intro other hpath hcycle
    have hother := hrooted.shown_of_transGen_flatPreviousElement hshown hpath
    obtain ⟨parent, -, -, hlt⟩ := hrooted.of_transGen_flatPreviousElement hother hcycle
    exact Nat.lt_irrefl _ hlt

end Rooted

/-! ## Coherent trees -/

namespace Coherent

variable (hcoherent : tree.Coherent)
  (hslots : ∀ slot, tree.isSlot slot = true → slot ∈ tree.nodes)
  (hslot : tree.isSlot tree.document = false)
  (htype : tree.nodeType tree.document ≠ .shadowRoot)

include hcoherent hslots hslot htype

/-- What is shown is no slot, and no shadow root. -/
theorem not_slot_of_shown {node : ν} (hshown : tree.Shown node) :
    tree.isSlot node = false ∧ tree.nodeType node ≠ .shadowRoot := by
  induction hshown with
  | refl => exact ⟨hslot, htype⟩
  | tail _ hmem ih =>
      obtain ⟨above, habove⟩ := hcoherent.exists_parent_of_mem hslots ih.1 ih.2 hmem
      exact ⟨((mem_flatChildren_iff hslots).mp hmem).1, hcoherent.nodeType_ne_of_parent habove⟩

theorem rooted (hparent : tree.parent tree.document = none)
    (hdocument : tree.document ∈ tree.nodes)
    (hnodes : ∀ node parent, tree.parent node = some parent → node ∈ tree.nodes) : tree.Rooted where
  flatParent_document := by
    have hassigned : tree.assignedSlot tree.document = none := by
      cases hassigned : tree.assignedSlot tree.document with
      | none => rfl
      | some slot =>
          obtain ⟨host, -, hhost, -⟩ := hcoherent.hosted_of_assigned _ slot hassigned
          rw [hparent] at hhost
          contradiction
    rw [flatParent, leaveSlots, hassigned, hparent]
  flatParent_of_mem := by
    intro parent node hshown hmem
    obtain ⟨hparentSlot, hroot⟩ := hcoherent.not_slot_of_shown hslots hslot htype hshown
    have hnode := ((mem_flatChildren_iff hslots).mp hmem).1
    exact (hcoherent.flatParent_iff_mem hslots hnode hparentSlot hroot).mpr hmem
  mem_nodes := by
    intro node hshown
    rcases hshown.cases with rfl | ⟨parent, habove, hmem⟩
    · exact hdocument
    · obtain ⟨hparentSlot, hroot⟩ := hcoherent.not_slot_of_shown hslots hslot htype habove
      obtain ⟨above, hnode⟩ := hcoherent.exists_parent_of_mem hslots hparentSlot hroot hmem
      exact hnodes node above hnode

end Coherent

/-! ## Trees without shadow roots -/

/-- Nothing in the tree changes what is shown. -/
structure Plain (tree : NodeTree ν) : Prop where
  nodeType : ∀ node, tree.nodeType node ≠ .shadowRoot
  shadowRoot : ∀ node, tree.shadowRoot node = none
  isSlot : ∀ node, tree.isSlot node = false
  assignedSlot : ∀ node, tree.assignedSlot node = none

theorem eraseDups_of_nodup {nodes : List ν} (hnodup : nodes.Nodup) : nodes.eraseDups = nodes := by
  induction nodes with
  | nil => rfl
  | cons node nodes ih =>
      rw [List.nodup_cons] at hnodup
      have hothers : nodes.filter (fun other => !other == node) = nodes := by
        rw [List.filter_eq_self]
        intro other hother
        have hne : other ≠ node := by
          rintro rfl
          exact hnodup.1 hother
        simp [hne]
      rw [List.eraseDups_cons, hothers, ih hnodup.2]

namespace Plain

variable (hplain : tree.Plain)

include hplain

theorem flatChildren_eq {node : ν} (hnodup : (tree.children node).Nodup) :
    tree.flatChildren node = tree.children node := by
  have hexpand : tree.expand tree.nodes = fun other => [other] := by
    funext other
    rw [expand, if_neg (by simp [hplain.isSlot other])]
  have hunexpanded : tree.unexpanded node = tree.children node := by
    rw [unexpanded, hplain.shadowRoot node, hplain.isSlot node]
    rfl
  rw [flatChildren, hunexpanded, hexpand, List.flatMap_singleton', eraseDups_of_nodup hnodup]

theorem flatParent_eq (node : ν) : tree.flatParent node = tree.parent node := by
  have habove : tree.slotAbove node = none := by
    rw [slotAbove, hplain.assignedSlot node]
    cases tree.parent node with
    | none => rfl
    | some parent => simp [showsChildren, hplain.isSlot]
  rw [flatParent, leaveSlots_eq, habove]
  change tree.parentOutside node = tree.parent node
  rw [parentOutside]
  cases tree.parent node with
  | none => rfl
  | some parent => simp [hplain.isSlot, hplain.shadowRoot, hplain.nodeType]

end Plain

end FlatTree.NodeTree
