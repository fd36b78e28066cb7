import FlatTree.Proofs.Flat.Coherence
import FlatTree.Proofs.Store.Consistency
import FlatTree.Proofs.TreeOrder
import FlatTree.Store.Slots

/-!
# Slot assignment in consistent stores

A child of a host is assigned to a slot exactly where the slot lists the child, because the shadow root
whose tree holds a slot is the one under which the slot is found.  So the answers of a consistent store
about its nodes are coherent, as long as no slot hosts a shadow root.
-/

namespace FlatTree.Store

open Relation

variable {store : Store}

theorem mem_firstSlot {root slot : Nat} {name : String}
    (hfirst : store.firstSlot root name = some slot) :
    slot ∈ store.descendants root ∧ store.hasSlotTag slot = true ∧ store.nameOfSlot slot = name := by
  have hholds := List.find?_some hfirst
  rw [Bool.and_eq_true, decide_eq_true_eq] at hholds
  exact ⟨List.mem_of_find?_eq_some hfirst, hholds.1, hholds.2⟩

theorem assignedSlot_eq_some_iff {node slot : Nat} :
    store.assignedSlot node = some slot ↔ ∃ name host root, store.wantedSlot node = some name ∧
      store.parent node = some host ∧ store.shadowRoot host = some root ∧
      store.firstSlot root name = some slot := by
  rw [assignedSlot]
  cases hwanted : store.wantedSlot node with
  | none => simp
  | some name =>
      simp only [Option.bind_eq_some_iff, Option.some.injEq]
      constructor
      · rintro ⟨root, ⟨host, hhost, hroot⟩, hfirst⟩
        exact ⟨name, host, root, rfl, hhost, hroot, hfirst⟩
      · rintro ⟨_, host, root, rfl, hhost, hroot, hfirst⟩
        exact ⟨root, ⟨host, hhost, hroot⟩, hfirst⟩

theorem mem_assignedNodes_iff {node slot : Nat} :
    node ∈ store.assignedNodes slot ↔ ∃ root host, store.enclosingRoot slot = some root ∧
      store.firstSlot root (store.nameOfSlot slot) = some slot ∧ store.host root = some host ∧
      node ∈ store.children host ∧ store.wantedSlot node = some (store.nameOfSlot slot) := by
  rw [assignedNodes]
  cases hroot : store.enclosingRoot slot with
  | none => simp
  | some root =>
      by_cases hfirst : store.firstSlot root (store.nameOfSlot slot) = some slot
      · cases hhost : store.host root with
        | none => simp [hfirst, hhost]
        | some host => simp [hfirst, hhost]
      · simp [hfirst]

theorem listTree_eq_preorder (levels node : Nat) :
    store.listTree levels node = preorder store.children levels node := by
  induction levels generalizing node with
  | zero => rfl
  | succ levels ih =>
      rw [listTree, preorder]
      congr 1
      exact List.flatMap_congr fun child _ => ih child

variable (hconsistent : store.Consistent)

include hconsistent

theorem Consistent.reflTransGen_of_mem_listTree {levels node below : Nat}
    (hbelow : below ∈ store.listTree levels node) :
    ReflTransGen (Leads store.parent) below node := by
  rw [listTree_eq_preorder] at hbelow
  exact path_of_mem_preorder hconsistent.mem_children_iff hbelow

theorem Consistent.lt_size_of_transGen {node above : Nat}
    (hpath : TransGen (Leads store.parent) node above) : above < store.size := by
  induction hpath with
  | single hparent => exact (hconsistent.lt_size_of_parent hparent).2
  | tail _ hparent _ => exact (hconsistent.lt_size_of_parent hparent).2

theorem Consistent.root_eq {node top : Nat} (hpath : ReflTransGen (Leads store.parent) node top)
    (hnone : store.parent top = none) : store.root node = top := by
  have hmem : ∀ above, TransGen (Leads store.parent) node above → above ∈ List.range store.size := by
    intro above habove
    exact List.mem_range.mpr (hconsistent.lt_size_of_transGen habove)
  have hends := endsWithin_of_reflTransGen_none (List.range store.size) hmem hpath hnone
  rw [List.length_range] at hends
  exact getLast?_walk hends hpath hnone

/-- What is found below a shadow root has that root as its enclosing root. -/
theorem Consistent.enclosingRoot_eq {root node : Nat} (hroot : store.nodeType root = .shadowRoot)
    (hnode : node ∈ store.descendants root) : store.enclosingRoot node = some root := by
  have htop := hconsistent.root_eq (hconsistent.reflTransGen_of_mem_listTree hnode)
    (hconsistent.parent_eq_none root hroot)
  rw [enclosingRoot, htop, if_pos hroot]

theorem Consistent.assigned_iff (node slot : Nat) :
    store.assignedSlot node = some slot ↔ node ∈ store.assignedNodes slot := by
  rw [assignedSlot_eq_some_iff, mem_assignedNodes_iff]
  constructor
  · rintro ⟨name, host, root, hwanted, hhost, hroot, hfirst⟩
    obtain ⟨hslot, -, rfl⟩ := mem_firstSlot hfirst
    have hhosted := (hconsistent.shadowRoot_iff host root).mp hroot
    have htype := (hconsistent.nodeType_iff root).mpr ⟨host, hhosted⟩
    exact ⟨root, host, hconsistent.enclosingRoot_eq htype hslot, hfirst, hhosted,
      (hconsistent.mem_children_iff host node).mpr hhost, hwanted⟩
  · rintro ⟨root, host, -, hfirst, hhosted, hnode, hwanted⟩
    exact ⟨store.nameOfSlot slot, host, root, hwanted, (hconsistent.mem_children_iff host node).mp hnode,
      (hconsistent.shadowRoot_iff host root).mpr hhosted, hfirst⟩

theorem Consistent.isSlot_of_assigned {node slot : Nat}
    (hassigned : store.assignedSlot node = some slot) : store.isSlot slot = true := by
  obtain ⟨name, host, root, -, -, hroot, hfirst⟩ := assignedSlot_eq_some_iff.mp hassigned
  obtain ⟨hslot, htag, -⟩ := mem_firstSlot hfirst
  have hhosted := (hconsistent.shadowRoot_iff host root).mp hroot
  have htype := (hconsistent.nodeType_iff root).mpr ⟨host, hhosted⟩
  rw [isSlot, htag, hconsistent.enclosingRoot_eq htype hslot]
  rfl

/-- The links of a consistent store agree with each other. -/
theorem Consistent.linked_toTree : store.toTree.Linked where
  mem_children_iff := hconsistent.mem_children_iff
  nodup_children := hconsistent.nodup_children
  shadowRoot_iff := hconsistent.shadowRoot_iff
  nodeType_iff := hconsistent.nodeType_iff
  parent_eq_none := hconsistent.parent_eq_none
  shadowRoot_eq_none := hconsistent.shadowRoot_eq_none
  assigned_iff := hconsistent.assigned_iff
  isSlot_of_assigned := fun _ _ hassigned => hconsistent.isSlot_of_assigned hassigned
  hosted_of_assigned := by
    intro node slot hassigned
    obtain ⟨-, host, root, -, hhost, hroot, -⟩ := assignedSlot_eq_some_iff.mp hassigned
    exact ⟨host, root, hhost, hroot⟩

theorem Consistent.coherent_toTree
    (hslots : ∀ slot, store.isSlot slot = true → store.shadowRoot slot = none) :
    store.toTree.Coherent where
  toLinked := hconsistent.linked_toTree
  shadowRoot_slot := hslots

omit hconsistent in
theorem nodeType_of_isSlot {slot : Nat} (hslot : store.isSlot slot = true) :
    store.nodeType slot = .element := by
  rw [isSlot, Bool.and_eq_true, hasSlotTag] at hslot
  cases helement : store.element? slot with
  | none => simp [helement] at hslot
  | some element =>
      cases hstored : store.node? slot with
      | none => simp [element?, hstored] at helement
      | some stored =>
          rw [nodeType, hstored, Option.map_some, content_of_element? helement hstored]
          rfl

omit hconsistent in
theorem mem_nodes_of_isSlot {slot : Nat} (hslot : store.isSlot slot = true) :
    slot ∈ store.toTree.nodes := by
  apply List.mem_range.mpr
  apply lt_size_of_nodeType
  rw [nodeType_of_isSlot hslot]
  nofun

theorem Consistent.nodeType_document_ne : store.nodeType 0 ≠ .shadowRoot := by
  rw [hconsistent.nodeType_document]
  nofun

theorem Consistent.not_slot_document : store.isSlot 0 = false := by
  apply Bool.eq_false_iff.mpr
  intro hslot
  have htype := nodeType_of_isSlot hslot
  rw [hconsistent.nodeType_document] at htype
  contradiction

end FlatTree.Store
