import FlatTree.Proofs.Flat.Content
import Mathlib.Data.Fin.VecNotation
import Mathlib.Data.List.Nodup

/-!
# Parents and children of coherent trees

In a tree whose answers agree with each other the two ways through the slots are inverse: a node has a
flat parent exactly where it is among the flat children of that parent.  Going up, every node stands in
the place of at most one slot; going down, a slot shows exactly the nodes that stand in its place.  Only a
slot that hosts a shadow root can break this, where it shows children of its own: from below they are
children of a host that are not assigned.
-/

namespace FlatTree.NodeTree

open Relation

variable {ν : Type}

/-- The links of a tree agree with each other. -/
structure Linked (tree : NodeTree ν) : Prop where
  mem_children_iff : ∀ parent node, node ∈ tree.children parent ↔ tree.parent node = some parent
  nodup_children : ∀ parent, (tree.children parent).Nodup
  shadowRoot_iff : ∀ host root, tree.shadowRoot host = some root ↔ tree.host root = some host
  nodeType_iff : ∀ root, tree.nodeType root = .shadowRoot ↔ ∃ host, tree.host root = some host
  parent_eq_none : ∀ root, tree.nodeType root = .shadowRoot → tree.parent root = none
  shadowRoot_eq_none : ∀ root, tree.nodeType root = .shadowRoot → tree.shadowRoot root = none
  assigned_iff : ∀ node slot,
    tree.assignedSlot node = some slot ↔ node ∈ tree.assignedNodes slot
  isSlot_of_assigned : ∀ node slot, tree.assignedSlot node = some slot → tree.isSlot slot = true
  hosted_of_assigned : ∀ node slot, tree.assignedSlot node = some slot →
    ∃ host root, tree.parent node = some host ∧ tree.shadowRoot host = some root

/-- The answers of a tree about its nodes agree with each other, and no slot hosts a shadow root. -/
structure Coherent (tree : NodeTree ν) : Prop extends Linked tree where
  shadowRoot_slot : ∀ slot, tree.isSlot slot = true → tree.shadowRoot slot = none

/-- A slot whose own children stand in its place. -/
def showsChildren (tree : NodeTree ν) (slot : ν) : Bool :=
  tree.nodeType slot ≠ .shadowRoot && (tree.shadowRoot slot).isNone && tree.isSlot slot &&
    (tree.assignedNodes slot).isEmpty

/-- The slot in whose place a node stands: the slot to which it is assigned, or else its parent, if that
is a slot without assigned nodes. -/
def slotAbove (tree : NodeTree ν) (node : ν) : Option ν :=
  match tree.assignedSlot node with
  | some slot => some slot
  | none => (tree.parent node).filter tree.showsChildren

/-- The flat parent of a node that stands in the place of no slot. -/
def parentOutside (tree : NodeTree ν) (node : ν) : Option ν :=
  match tree.parent node with
  | none => none
  | some parent =>
    if tree.nodeType parent = .shadowRoot then tree.host parent
    else if (tree.shadowRoot parent).isSome || tree.isSlot parent then none
    else some parent

variable {tree : NodeTree ν}

theorem assignedSlot_of_slotAbove {node slot : ν} (habove : tree.slotAbove node = some slot) :
    tree.assignedSlot node = some slot ∨
      tree.assignedSlot node = none ∧ tree.parent node = some slot := by
  rw [slotAbove] at habove
  cases hassigned : tree.assignedSlot node with
  | some assigned =>
      rw [hassigned] at habove
      exact Or.inl habove
  | none =>
      rw [hassigned] at habove
      exact Or.inr ⟨rfl, (Option.filter_eq_some_iff.mp habove).1⟩

theorem assignedSlot_eq_none_of_slotAbove {node : ν} (hnone : tree.slotAbove node = none) :
    tree.assignedSlot node = none := by
  cases hassigned : tree.assignedSlot node with
  | none => rfl
  | some slot => simp [slotAbove, hassigned] at hnone

variable [DecidableEq ν]

theorem leaveSlots_eq (unused : List ν) (node : ν) :
    tree.leaveSlots unused node =
      match tree.slotAbove node with
      | some slot => if slot ∈ unused then tree.leaveSlots (without unused slot) slot else none
      | none => tree.parentOutside node := by
  rw [leaveSlots, slotAbove, parentOutside]
  cases tree.assignedSlot node with
  | some slot => simp
  | none =>
      cases hparent : tree.parent node with
      | none => rfl
      | some parent =>
          simp only [Option.filter_some, showsChildren]
          by_cases hroot : tree.nodeType parent = .shadowRoot
          · simp [hroot]
          · by_cases hhosts : tree.shadowRoot parent = none
            · by_cases hslot : tree.isSlot parent = true
              · by_cases hempty : tree.assignedNodes parent = []
                · simp [hroot, hhosts, hslot, hempty]
                · simp [hroot, hhosts, hslot, hempty]
              · simp [hroot, hhosts, hslot]
            · simp [hroot, hhosts, Option.isSome_iff_ne_none]

/-- Slots are left until a node stands in the place of no slot. -/
theorem leaveSlots_eq_some_iff {unused : List ν} {node parent : ν} :
    tree.leaveSlots unused node = some parent ↔
      ∃ top, ReflTransGen (fun below slot => slot ∈ unused ∧ tree.slotAbove below = some slot)
          node top ∧
        tree.slotAbove top = none ∧ tree.parentOutside top = some parent := by
  induction hlength : unused.length using Nat.strongRecOn generalizing unused node with
  | ind length ih =>
      rw [leaveSlots_eq]
      cases hslot : tree.slotAbove node with
      | none =>
          constructor
          · intro hparent
            exact ⟨node, .refl, hslot, hparent⟩
          · rintro ⟨top, hpath, -, hparent⟩
            rcases hpath.cases_head with rfl | ⟨slot, ⟨-, habove⟩, -⟩
            · exact hparent
            · rw [hslot] at habove
              contradiction
      | some slot =>
          by_cases hmem : slot ∈ unused
          · have hlt : (without unused slot).length < length := hlength ▸ length_without_lt hmem
            simp only [if_pos hmem, ih _ hlt rfl, mem_without]
            constructor
            · rintro ⟨top, hpath, htop, hparent⟩
              refine ⟨top, .head ⟨hmem, hslot⟩ (ReflTransGen.mono ?_ _ _ hpath), htop, hparent⟩
              rintro below above ⟨⟨habove, -⟩, hstep⟩
              exact ⟨habove, hstep⟩
            · rintro ⟨top, hpath, htop, hparent⟩
              rcases hpath.cases_head with rfl | ⟨next, ⟨-, hnext⟩, hpath⟩
              · rw [hslot] at htop
                contradiction
              · obtain rfl : slot = next := Option.some.inj (hslot.symm.trans hnext)
                refine ⟨top, ReflTransGen.mono ?_ _ _ (exists_without_return hpath), htop, hparent⟩
                rintro below above ⟨hne, habove, hstep⟩
                exact ⟨⟨habove, hne⟩, hstep⟩
          · simp only [if_neg hmem]
            constructor
            · intro hparent
              contradiction
            · rintro ⟨top, hpath, htop, -⟩
              rcases hpath.cases_head with rfl | ⟨next, ⟨hnext, hstep⟩, -⟩
              · rw [hslot] at htop
                contradiction
              · rw [hslot] at hstep
                cases hstep
                contradiction

omit [DecidableEq ν] in
theorem exists_parent_of_parentOutside {node parent : ν}
    (houtside : tree.parentOutside node = some parent) : ∃ above, tree.parent node = some above := by
  cases habove : tree.parent node with
  | none => simp [parentOutside, habove] at houtside
  | some above => exact ⟨above, rfl⟩

/-- A slot that hosts a shadow root shows a child of its own. -/
def ShowsAsHost (tree : NodeTree ν) (slot node : ν) : Prop :=
  tree.Shows slot node ∧ tree.assignedNodes slot = [] ∧ (tree.shadowRoot slot).isSome

/-- The way down from a node to a flat child passes a slot that shows a child of its own as a host. -/
def ShownThroughHost (tree : NodeTree ν) (parent node : ν) : Prop :=
  ∃ base ∈ tree.unexpanded parent, ∃ slot child, ReflTransGen tree.Shows base slot ∧
    tree.ShowsAsHost slot child ∧ ReflTransGen tree.Shows child node

/-- A node whose flat children are its own: no slot without a shadow root, and no shadow root. -/
def StandsAlone (tree : NodeTree ν) (node : ν) : Prop :=
  (tree.isSlot node = true → (tree.shadowRoot node).isSome) ∧ tree.nodeType node ≠ .shadowRoot

omit [DecidableEq ν] in
theorem standsAlone_of_not_slot {node : ν} (hslot : tree.isSlot node = false)
    (hroot : tree.nodeType node ≠ .shadowRoot) : tree.StandsAlone node := by
  refine ⟨fun htrue => ?_, hroot⟩
  rw [hslot] at htrue
  contradiction

namespace Linked

variable (hlinked : tree.Linked)

include hlinked

omit [DecidableEq ν] in
theorem nodeType_ne_of_parent {node parent : ν} (hparent : tree.parent node = some parent) :
    tree.nodeType node ≠ .shadowRoot := by
  intro hroot
  rw [hlinked.parent_eq_none node hroot] at hparent
  contradiction

omit [DecidableEq ν] in
/-- Children of a node that hosts no shadow root are not assigned. -/
theorem assignedSlot_eq_none {node parent : ν} (hparent : tree.parent node = some parent)
    (hroot : tree.shadowRoot parent = none) : tree.assignedSlot node = none := by
  cases hassigned : tree.assignedSlot node with
  | none => rfl
  | some slot =>
      obtain ⟨host, root, hhost, hhosted⟩ := hlinked.hosted_of_assigned node slot hassigned
      rw [hparent] at hhost
      cases hhost
      rw [hroot] at hhosted
      contradiction

omit [DecidableEq ν] in
theorem exists_parent_of_shows {slot node : ν} (hshows : tree.Shows slot node) :
    ∃ parent, tree.parent node = some parent := by
  rcases mem_standsFor_iff.mp hshows.2 with hassigned | ⟨-, hchild⟩
  · rw [← hlinked.assigned_iff] at hassigned
    obtain ⟨host, -, hhost, -⟩ := hlinked.hosted_of_assigned node slot hassigned
    exact ⟨host, hhost⟩
  · exact ⟨slot, (hlinked.mem_children_iff slot node).mp hchild⟩

omit [DecidableEq ν] in
theorem nodeType_ne_of_shows {slot node : ν} (hshows : tree.Shows slot node) :
    tree.nodeType node ≠ .shadowRoot := by
  obtain ⟨parent, hparent⟩ := hlinked.exists_parent_of_shows hshows
  exact hlinked.nodeType_ne_of_parent hparent

omit [DecidableEq ν] in
theorem shows_of_slotAbove {slot node : ν} (habove : tree.slotAbove node = some slot) :
    tree.Shows slot node := by
  rw [slotAbove] at habove
  cases hassigned : tree.assignedSlot node with
  | some assigned =>
      rw [hassigned] at habove
      cases habove
      refine ⟨hlinked.isSlot_of_assigned node slot hassigned, mem_standsFor_iff.mpr (Or.inl ?_)⟩
      exact (hlinked.assigned_iff node slot).mp hassigned
  | none =>
      simp only [hassigned, Option.filter_eq_some_iff, showsChildren, Bool.and_eq_true,
        List.isEmpty_iff] at habove
      obtain ⟨hparent, ⟨-, hslot⟩, hempty⟩ := habove
      refine ⟨hslot, mem_standsFor_iff.mpr (Or.inr ⟨hempty, ?_⟩)⟩
      exact (hlinked.mem_children_iff slot node).mpr hparent

omit [DecidableEq ν] in
theorem slotAbove_of_shows {slot node : ν} (hshows : tree.Shows slot node)
    (hhost : ¬ tree.ShowsAsHost slot node) (hroot : tree.nodeType slot ≠ .shadowRoot) :
    tree.slotAbove node = some slot := by
  rcases mem_standsFor_iff.mp hshows.2 with hassigned | ⟨hempty, hchild⟩
  · rw [slotAbove, (hlinked.assigned_iff node slot).mpr hassigned]
  · have hparent := (hlinked.mem_children_iff slot node).mp hchild
    have hnone : tree.shadowRoot slot = none := by
      rw [← Option.not_isSome_iff_eq_none]
      exact fun hsome => hhost ⟨hshows, hempty, hsome⟩
    rw [slotAbove, hlinked.assignedSlot_eq_none hparent hnone, hparent]
    simp [showsChildren, hroot, hnone, hshows.1, hempty]

omit [DecidableEq ν] in
/-- Ways down from a node that is no shadow root are ways up from their end, unless a slot on the way
shows children of its own as a host. -/
theorem slotAbove_path_of_shows_path {first last : ν}
    (hpath : ReflTransGen (fun slot node => ¬ tree.ShowsAsHost slot node ∧ tree.Shows slot node)
      first last) (hroot : tree.nodeType first ≠ .shadowRoot) :
    ReflTransGen (Leads tree.slotAbove) last first ∧ tree.nodeType last ≠ .shadowRoot := by
  induction hpath with
  | refl => exact ⟨.refl, hroot⟩
  | tail _ hshows ih =>
      exact ⟨.head (hlinked.slotAbove_of_shows hshows.2 hshows.1 ih.2) ih.1,
        hlinked.nodeType_ne_of_shows hshows.2⟩

omit [DecidableEq ν] in
theorem shows_path_of_slotAbove_path {first last : ν}
    (hpath : ReflTransGen (Leads tree.slotAbove) last first) :
    ReflTransGen tree.Shows first last := by
  induction hpath with
  | refl => exact .refl
  | tail _ habove ih => exact .head (hlinked.shows_of_slotAbove habove) ih

theorem flatParent_eq_some_iff (hslots : ∀ slot, tree.isSlot slot = true → slot ∈ tree.nodes)
    {node parent : ν} :
    tree.flatParent node = some parent ↔ ∃ top, ReflTransGen (Leads tree.slotAbove) node top ∧
      tree.slotAbove top = none ∧ tree.parentOutside top = some parent := by
  have hpath (top : ν) : ReflTransGen
      (fun below slot => slot ∈ tree.nodes ∧ tree.slotAbove below = some slot) node top ↔
        ReflTransGen (Leads tree.slotAbove) node top := by
    constructor
    · apply ReflTransGen.mono
      exact fun _ _ hstep => hstep.2
    · apply ReflTransGen.mono
      exact fun _ _ habove => ⟨hslots _ (hlinked.shows_of_slotAbove habove).1, habove⟩
  simp only [flatParent, leaveSlots_eq_some_iff, hpath]

/-- What stands in the place of a slot has the flat parent of the slot. -/
theorem flatParent_of_path (hslots : ∀ slot, tree.isSlot slot = true → slot ∈ tree.nodes)
    {node slot parent : ν} (hpath : ReflTransGen (Leads tree.slotAbove) node slot)
    (hparent : tree.flatParent slot = some parent) : tree.flatParent node = some parent := by
  obtain ⟨top, hrest, htop⟩ := (hlinked.flatParent_eq_some_iff hslots).mp hparent
  exact (hlinked.flatParent_eq_some_iff hslots).mpr ⟨top, hpath.trans hrest, htop⟩

omit [DecidableEq ν] in
/-- A flat parent is replaced by nothing. -/
theorem standsAlone_of_parentOutside {node parent : ν}
    (houtside : tree.parentOutside node = some parent) : tree.StandsAlone parent := by
  rw [parentOutside] at houtside
  cases habove : tree.parent node with
  | none => simp [habove] at houtside
  | some above =>
      by_cases htype : tree.nodeType above = .shadowRoot
      · have hhost : tree.host above = some parent := by simpa [habove, htype] using houtside
        have hhosts := (hlinked.shadowRoot_iff parent above).mpr hhost
        refine ⟨fun _ => by rw [hhosts]; rfl, fun hroot => ?_⟩
        rw [hlinked.shadowRoot_eq_none parent hroot] at hhosts
        contradiction
      · simp only [habove, htype, if_false, Option.ite_none_left_eq_some, Bool.or_eq_true,
          not_or, Option.some.injEq] at houtside
        obtain ⟨⟨-, hslot⟩, rfl⟩ := houtside
        exact ⟨fun htrue => absurd htrue hslot, htype⟩

omit [DecidableEq ν] in
/-- The nodes that stand for the children of a node are those that stand in the place of no slot and have
the node as their parent outside. -/
theorem mem_unexpanded_iff {parent base : ν} (halone : tree.StandsAlone parent) :
    base ∈ tree.unexpanded parent ↔
      tree.slotAbove base = none ∧ tree.parentOutside base = some parent := by
  obtain ⟨hslot, hroot⟩ := halone
  rw [unexpanded]
  constructor
  · intro hbase
    cases hhosts : tree.shadowRoot parent with
    | some root =>
        have htype : tree.nodeType root = .shadowRoot :=
          (hlinked.nodeType_iff root).mpr ⟨parent, (hlinked.shadowRoot_iff parent root).mp hhosts⟩
        have hparent : tree.parent base = some root := by
          rw [← hlinked.mem_children_iff]
          simpa [hhosts] using hbase
        have hassigned :=
          hlinked.assignedSlot_eq_none hparent (hlinked.shadowRoot_eq_none root htype)
        have hhost := (hlinked.shadowRoot_iff parent root).mp hhosts
        simp [slotAbove, parentOutside, showsChildren, hassigned, hparent, htype, hhost]
    | none =>
        have hslot : tree.isSlot parent = false := by simpa [hhosts] using hslot
        have hparent : tree.parent base = some parent := by
          rw [← hlinked.mem_children_iff]
          simpa [hhosts, hslot] using hbase
        have hassigned := hlinked.assignedSlot_eq_none hparent hhosts
        simp [slotAbove, parentOutside, showsChildren, hassigned, hparent, hroot, hhosts, hslot]
  · rintro ⟨-, houtside⟩
    rw [parentOutside] at houtside
    cases hparent : tree.parent base with
    | none => simp [hparent] at houtside
    | some above =>
        have hmem := (hlinked.mem_children_iff above base).mpr hparent
        by_cases htype : tree.nodeType above = .shadowRoot
        · have hhost : tree.host above = some parent := by simpa [hparent, htype] using houtside
          simpa [(hlinked.shadowRoot_iff parent above).mpr hhost] using hmem
        · simp only [hparent, htype, if_false, Option.ite_none_left_eq_some, Bool.or_eq_true,
            not_or, Option.some.injEq, Option.not_isSome_iff_eq_none] at houtside
          obtain ⟨⟨hhosts, hnot⟩, rfl⟩ := houtside
          simpa [hhosts, hnot] using hmem

theorem standsAlone_of_flatParent (hslots : ∀ slot, tree.isSlot slot = true → slot ∈ tree.nodes)
    {node parent : ν} (hparent : tree.flatParent node = some parent) : tree.StandsAlone parent := by
  obtain ⟨_, -, -, houtside⟩ := (hlinked.flatParent_eq_some_iff hslots).mp hparent
  exact hlinked.standsAlone_of_parentOutside houtside

/-- A flat parent always has the node among its flat children. -/
theorem mem_of_flatParent (hslots : ∀ slot, tree.isSlot slot = true → slot ∈ tree.nodes)
    {node parent : ν} (hnode : tree.isSlot node = false)
    (hparent : tree.flatParent node = some parent) : node ∈ tree.flatChildren parent := by
  have halone := hlinked.standsAlone_of_flatParent hslots hparent
  obtain ⟨top, hpath, htop⟩ := (hlinked.flatParent_eq_some_iff hslots).mp hparent
  rw [mem_flatChildren_iff hslots]
  exact ⟨hnode, top, (hlinked.mem_unexpanded_iff halone).mpr htop,
    hlinked.shows_path_of_slotAbove_path hpath⟩

/-- A node is a flat child where it has its flat parent, or else where it is shown through a slot that
shows children of its own although it hosts a shadow root. -/
theorem mem_flatChildren_iff_flatParent
    (hslots : ∀ slot, tree.isSlot slot = true → slot ∈ tree.nodes) {node parent : ν}
    (hnode : tree.isSlot node = false) (halone : tree.StandsAlone parent) :
    node ∈ tree.flatChildren parent ↔
      tree.flatParent node = some parent ∨ tree.ShownThroughHost parent node := by
  constructor
  · intro hmem
    obtain ⟨-, base, hbase, hpath⟩ := (mem_flatChildren_iff hslots).mp hmem
    rcases avoids_or_takes tree.ShowsAsHost hpath with havoids | ⟨slot, child, hslot, hhost, hchild⟩
    · obtain ⟨hnone, houtside⟩ := (hlinked.mem_unexpanded_iff halone).mp hbase
      obtain ⟨above, habove⟩ := exists_parent_of_parentOutside houtside
      have hup := hlinked.slotAbove_path_of_shows_path havoids
        (hlinked.nodeType_ne_of_parent habove)
      exact Or.inl ((hlinked.flatParent_eq_some_iff hslots).mpr ⟨base, hup.1, hnone, houtside⟩)
    · exact Or.inr ⟨base, hbase, slot, child, hslot, hhost.1, hchild⟩
  · rintro (hparent | ⟨base, hbase, slot, child, hslot, hhost, hchild⟩)
    · exact hlinked.mem_of_flatParent hslots hnode hparent
    · rw [mem_flatChildren_iff hslots]
      exact ⟨hnode, base, hbase, (hslot.tail hhost.1).trans hchild⟩

end Linked

namespace Coherent

variable (hcoherent : tree.Coherent)

include hcoherent

omit [DecidableEq ν] in
theorem not_showsAsHost (slot node : ν) : ¬ tree.ShowsAsHost slot node := by
  rintro ⟨hshows, -, hhosts⟩
  rw [hcoherent.shadowRoot_slot slot hshows.1] at hhosts
  contradiction

omit [DecidableEq ν] in
theorem slotAbove_path_of_shows_path {first last : ν} (hpath : ReflTransGen tree.Shows first last)
    (hroot : tree.nodeType first ≠ .shadowRoot) :
    ReflTransGen (Leads tree.slotAbove) last first ∧ tree.nodeType last ≠ .shadowRoot := by
  refine hcoherent.toLinked.slotAbove_path_of_shows_path (ReflTransGen.mono ?_ _ _ hpath) hroot
  exact fun slot node hshows => ⟨hcoherent.not_showsAsHost slot node, hshows⟩

theorem flatParent_iff_mem (hslots : ∀ slot, tree.isSlot slot = true → slot ∈ tree.nodes)
    {node parent : ν} (hnode : tree.isSlot node = false) (hslot : tree.isSlot parent = false)
    (hroot : tree.nodeType parent ≠ .shadowRoot) :
    tree.flatParent node = some parent ↔ node ∈ tree.flatChildren parent := by
  have halone := standsAlone_of_not_slot hslot hroot
  rw [hcoherent.mem_flatChildren_iff_flatParent hslots hnode halone]
  refine ⟨Or.inl, ?_⟩
  rintro (hparent | ⟨-, -, slot, child, -, hhost, -⟩)
  · exact hparent
  · exact absurd hhost (hcoherent.not_showsAsHost slot child)

/-- Whatever is a flat child has a parent of its own. -/
theorem exists_parent_of_mem (hslots : ∀ slot, tree.isSlot slot = true → slot ∈ tree.nodes)
    {node parent : ν} (hslot : tree.isSlot parent = false)
    (hroot : tree.nodeType parent ≠ .shadowRoot) (hmem : node ∈ tree.flatChildren parent) :
    ∃ above, tree.parent node = some above := by
  have halone := standsAlone_of_not_slot hslot hroot
  obtain ⟨-, base, hbase, hpath⟩ := (mem_flatChildren_iff hslots).mp hmem
  rcases hpath.cases_tail with rfl | ⟨slot, -, hshows⟩
  · exact exists_parent_of_parentOutside ((hcoherent.mem_unexpanded_iff halone).mp hbase).2
  · exact hcoherent.exists_parent_of_shows hshows

/-- What is shown by a slot that comes to show itself has no flat parent. -/
theorem flatParent_eq_none_of_cycle (hslots : ∀ slot, tree.isSlot slot = true → slot ∈ tree.nodes)
    {slot node : ν} (hshown : ReflTransGen tree.Shows slot node)
    (hcycle : TransGen tree.Shows slot slot) : tree.flatParent node = none := by
  obtain ⟨inner, hinner, hshows⟩ := TransGen.tail'_iff.mp hcycle
  have hlinked := hcoherent.toLinked
  have htype := hlinked.nodeType_ne_of_shows hshows
  have hup := (hcoherent.slotAbove_path_of_shows_path hshown htype).1
  obtain ⟨hback, hinnerType⟩ := hcoherent.slotAbove_path_of_shows_path hinner htype
  have haround : TransGen (Leads tree.slotAbove) slot slot :=
    .head' (hlinked.slotAbove_of_shows hshows (hcoherent.not_showsAsHost _ _) hinnerType) hback
  cases hparent : tree.flatParent node with
  | none => rfl
  | some parent =>
      obtain ⟨top, htop, hnone, -⟩ := (hlinked.flatParent_eq_some_iff hslots).mp hparent
      rcases ReflTransGen.total_of_right_unique (leads_rightUnique _) hup htop with hpath | hpath
      · exact absurd haround (not_transGen_of_reflTransGen_none hnone hpath)
      · rw [eq_of_reflTransGen_of_none hnone hpath] at haround
        exact absurd haround (not_transGen_of_reflTransGen_none hnone .refl)

end Coherent

/-- In a coherent tree, for nodes that are not slots, being the flat parent and having among the flat
children is the same, except that a shadow root is no flat parent.  So a node is a flat child of at most
one such node, and once; what a slot that comes to show itself shows is a flat child of none. -/
theorem flatParent_inverse_flatChildren (tree : NodeTree ν) (hcoherent : tree.Coherent)
    (hslots : ∀ slot, tree.isSlot slot = true → slot ∈ tree.nodes) :
    (∀ node parent, tree.isSlot node = false → tree.isSlot parent = false →
      tree.nodeType parent ≠ .shadowRoot →
        (tree.flatParent node = some parent ↔ node ∈ tree.flatChildren parent)) ∧
    (∀ node parent other, tree.isSlot node = false →
      tree.isSlot parent = false → tree.nodeType parent ≠ .shadowRoot →
      tree.isSlot other = false → tree.nodeType other ≠ .shadowRoot →
        node ∈ tree.flatChildren parent → node ∈ tree.flatChildren other → parent = other) ∧
    (∀ node parent, node ∈ tree.flatChildren parent → (tree.flatChildren parent).count node = 1) ∧
    (∀ node slot, tree.isSlot node = false → ReflTransGen tree.Shows slot node →
      TransGen tree.Shows slot slot → tree.flatParent node = none ∧
        ∀ parent, tree.isSlot parent = false → tree.nodeType parent ≠ .shadowRoot →
          node ∉ tree.flatChildren parent) := by
  have hiff {node parent : ν} (hnode : tree.isSlot node = false)
      (hslot : tree.isSlot parent = false) (hroot : tree.nodeType parent ≠ .shadowRoot) :=
    hcoherent.flatParent_iff_mem hslots hnode hslot hroot
  refine ⟨fun _ _ => hiff, ?_, ?_, ?_⟩
  · intro node parent other hnode hparent hroot hother hotherRoot hmem hmemOther
    have hfirst := (hiff hnode hparent hroot).mpr hmem
    have hsecond := (hiff hnode hother hotherRoot).mpr hmemOther
    exact Option.some.inj (hfirst.symm.trans hsecond)
  · intro node parent hmem
    exact List.count_eq_one_of_mem (nodup_flatChildren parent) hmem
  · intro node slot hnode hshown hcycle
    have hnone := hcoherent.flatParent_eq_none_of_cycle hslots hshown hcycle
    refine ⟨hnone, fun parent hparent hroot hmem => ?_⟩
    rw [← hiff hnode hparent hroot, hnone] at hmem
    contradiction

/-- A document with two hosts.  Node 7 is assigned to slot 6, which is assigned to slot 5 below node 3.
The slots 10 and 11 are assigned to each other, and node 12 to the first of them. -/
def slotChains : NodeTree (Fin 13) where
  nodes := List.finRange 13
  document := 0
  nodeType := ![.document, .element, .shadowRoot, .element, .shadowRoot, .element, .element, .text,
    .element, .shadowRoot, .element, .element, .text]
  parent := ![none, some 0, none, some 2, none, some 4, some 3, some 1, some 0, none, some 8, some 8,
    some 8]
  children := ![[1, 8], [7], [3], [6], [5], [], [], [], [10, 11, 12], [], [], [], []]
  shadowRoot := ![none, some 2, none, some 4, none, none, none, none, some 9, none, none, none, none]
  host := ![none, none, some 1, none, some 3, none, none, none, none, some 8, none, none, none]
  isSlot := ![false, false, false, false, false, true, true, false, false, false, true, true, false]
  assignedNodes := ![[], [], [], [], [], [6], [7], [], [], [], [11, 12], [10], []]
  assignedSlot := ![none, none, none, none, none, none, some 5, some 6, none, none, some 11, some 10,
    some 10]
  localName _ := "div"
  space _ := none
  attributeValue _ _ := none

theorem slotChains_coherent : slotChains.Coherent where
  mem_children_iff := by decide
  nodup_children := by decide
  shadowRoot_iff := by decide
  nodeType_iff := by decide
  parent_eq_none := by decide
  shadowRoot_eq_none := by decide
  assigned_iff := by decide
  isSlot_of_assigned := by decide
  hosted_of_assigned := by decide
  shadowRoot_slot := by decide

/-- Through two slots node 7 is shown below node 3; node 12 is shown nowhere. -/
theorem flatParent_inverse_flatChildren_slotChains :
    slotChains.Coherent ∧ slotChains.flatParent 7 = some 3 ∧ 7 ∈ slotChains.flatChildren 3 ∧
      slotChains.flatParent 12 = none ∧ 12 ∉ slotChains.flatChildren 8 := by
  have hslots : ∀ slot, slotChains.isSlot slot = true → slot ∈ slotChains.nodes :=
    fun slot _ => List.mem_finRange slot
  obtain ⟨hinverse, -, -, hcycle⟩ :=
    flatParent_inverse_flatChildren slotChains slotChains_coherent hslots
  have hparent : slotChains.flatParent 7 = some 3 := by decide +kernel
  have hshown : TransGen slotChains.Shows 10 10 :=
    .tail (.single (b := 11) ⟨rfl, by decide⟩) ⟨rfl, by decide⟩
  obtain ⟨hnone, hnowhere⟩ :=
    hcycle 12 10 rfl (.single ⟨rfl, by decide⟩) hshown
  exact ⟨slotChains_coherent, hparent, (hinverse 7 3 rfl rfl (by decide)).mp hparent, hnone,
    hnowhere 8 rfl (by decide)⟩

end FlatTree.NodeTree
