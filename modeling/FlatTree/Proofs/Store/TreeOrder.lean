import FlatTree.Proofs.Store.Assignment
import FlatTree.Proofs.Store.Integrity

/-!
# Slots in tree order

The nodes below a node of an intact store are listed in tree order, all of them and each once.  So the slot
that the children of a host are assigned to is the first one of its name in the tree of the shadow root, and
the search from a child and the search from a slot find the same pairs.
-/

namespace FlatTree.Store

open Relation

variable {store : Store}

/-- A `slot` element whose attribute `name` has the value, an empty one if it is missing. -/
def SlotNamed (store : Store) (name : String) (node : Nat) : Prop :=
  ∃ element, store.element? node = some element ∧ element.name = "slot" ∧
    (element.attributes.lookup "name").getD "" = name

theorem slotNamed_iff {name : String} {node : Nat} :
    store.SlotNamed name node ↔
      (store.hasSlotTag node && decide (store.nameOfSlot node = name)) = true := by
  rw [SlotNamed, hasSlotTag, nameOfSlot, attribute?]
  cases store.element? node with
  | none => simp
  | some element => simp

/-- Elements and text want a slot: an element the one that its attribute `slot` names, and text, which has
no attribute, the nameless one. -/
theorem wantedSlot_eq_some_iff {node : Nat} {name : String} :
    store.wantedSlot node = some name ↔
      (store.nodeType node = .element ∨ store.nodeType node = .text) ∧
        (store.attribute? node "slot").getD "" = name := by
  rw [wantedSlot]
  cases htype : store.nodeType node with
  | element => simp
  | text =>
      have hnone : store.attribute? node "slot" = none := by
        rw [attribute?, element?_eq_none (by rw [htype]; nofun)]
        rfl
      simp [hnone]
  | _ => simp

section Intact

variable (hintact : store.Intact)

include hintact

theorem Intact.orderedForest : OrderedForest store.parent store.children where
  mem_below_iff := hintact.mem_children_iff
  nodup_below := hintact.nodup_children
  acyclic := hintact.acyclic_parent

theorem Intact.spansWithin_children {node : Nat} (hnode : node < store.size) :
    SpansWithin store.children store.size node := by
  have hmem : ∀ other, ReflTransGen (Leads store.parent) other node → other ∈ List.range store.size := by
    intro other hpath
    rcases hpath.cases_head with rfl | ⟨parent, hparent, -⟩
    · exact List.mem_range.mpr hnode
    · exact List.mem_range.mpr (hintact.lt_size_of_parent hparent).1
  have hspans := hintact.orderedForest.spansWithin (List.range store.size) node hmem
  rwa [List.length_range] at hspans

/-- The first slot of a name is the first one in tree order below the shadow root. -/
theorem Intact.firstSlot_eq_some_iff {root : Nat} (hroot : store.nodeType root = .shadowRoot)
    (name : String) (slot : Nat) :
    store.firstSlot root name = some slot ↔
      FirstBelow store.parent store.children root (store.SlotNamed name) slot := by
  have hdocument : store.nodeType root ≠ .document := by simp [hroot]
  have helement : store.nodeType root ≠ .element := by simp [hroot]
  have hspans := hintact.spansWithin_children (lt_size_of_nodeType hdocument)
  have hself : (store.hasSlotTag root && decide (store.nameOfSlot root = name)) = false := by
    rw [hasSlotTag, element?_eq_none helement]
    rfl
  rw [firstSlot, descendants, listTree_eq_preorder,
    hintact.orderedForest.find?_preorder_eq_some_iff hspans hself]
  simp only [← slotNamed_iff]

/-- A child is assigned to the first slot in the tree of its parent's shadow root that has the name it
asks for. -/
theorem Intact.assignedSlot_eq_some_iff {node slot : Nat} :
    store.assignedSlot node = some slot ↔ ∃ host root,
      store.parent node = some host ∧ store.nodeType host = .element ∧
        store.shadowRoot host = some root ∧
        (store.nodeType node = .element ∨ store.nodeType node = .text) ∧
        FirstBelow store.parent store.children root
          (store.SlotNamed ((store.attribute? node "slot").getD "")) slot := by
  rw [Store.assignedSlot_eq_some_iff]
  constructor
  · rintro ⟨name, host, root, hwanted, hparent, hshadow, hfirst⟩
    obtain ⟨hkind, rfl⟩ := wantedSlot_eq_some_iff.mp hwanted
    have hroot := (hintact.nodeType_iff root).mpr ⟨host, (hintact.shadowRoot_iff host root).mp hshadow⟩
    exact ⟨host, root, hparent, hintact.nodeType_host host root hshadow, hshadow, hkind,
      (hintact.firstSlot_eq_some_iff hroot _ slot).mp hfirst⟩
  · rintro ⟨host, root, hparent, -, hshadow, hkind, hfirst⟩
    have hroot := (hintact.nodeType_iff root).mpr ⟨host, (hintact.shadowRoot_iff host root).mp hshadow⟩
    exact ⟨_, host, root, wantedSlot_eq_some_iff.mpr ⟨hkind, rfl⟩, hparent, hshadow,
      (hintact.firstSlot_eq_some_iff hroot _ slot).mpr hfirst⟩

end Intact

/-- A slot lists those children of its host that are assigned to it, in their order. -/
theorem Consistent.assignedNodes_eq_filter (hconsistent : store.Consistent) {slot node host : Nat}
    (hnode : node ∈ store.assignedNodes slot) (hhost : store.parent node = some host) :
    store.assignedNodes slot =
      (store.children host).filter fun child => store.assignedSlot child = some slot := by
  obtain ⟨root, above, hroot, hfirst, habove, hchild, -⟩ := mem_assignedNodes_iff.mp hnode
  obtain rfl : host = above := by
    rw [hconsistent.mem_children_iff, hhost] at hchild
    exact Option.some.inj hchild
  have hlisted : store.assignedNodes slot = (store.children host).filter fun child =>
      store.wantedSlot child = some (store.nameOfSlot slot) := by
    simp only [assignedNodes, hroot, hfirst, if_true, habove]
  rw [hlisted]
  apply List.filter_congr
  intro child hmem
  rw [decide_eq_decide, hconsistent.assigned_iff, hlisted, List.mem_filter, decide_eq_true_eq,
    and_iff_right hmem]

/-- In every store that edits make a node is assigned to a slot exactly if the slot lists it, and exactly if
it is an element or a text, its parent is an element that hosts a shadow root, and the slot is the first one
below that root whose name is the one that the node asks for.  A slot lists its nodes in the order of the
host's children and each once, no node is listed by two slots, and what lists a node is a slot of a shadow
tree. -/
theorem assigned_iff_first_slot (edits : List Edit) :
    let store := ofEdits edits
    (∀ node slot, store.assignedSlot node = some slot ↔ node ∈ store.assignedNodes slot) ∧
    (∀ node slot, store.assignedSlot node = some slot ↔ ∃ host root,
      store.parent node = some host ∧ store.nodeType host = .element ∧
        store.shadowRoot host = some root ∧
        (store.nodeType node = .element ∨ store.nodeType node = .text) ∧
        FirstBelow store.parent store.children root
          (store.SlotNamed ((store.attribute? node "slot").getD "")) slot) ∧
    (∀ slot node host, node ∈ store.assignedNodes slot → store.parent node = some host →
      store.assignedNodes slot =
        (store.children host).filter fun child => store.assignedSlot child = some slot) ∧
    (∀ slot, (store.assignedNodes slot).Nodup) ∧
    (∀ slot other, slot ≠ other → (store.assignedNodes slot).Disjoint (store.assignedNodes other)) ∧
    ∀ slot, store.assignedNodes slot ≠ [] → store.isSlot slot = true := by
  intro store
  have hintact : store.Intact := intact_ofEdits edits
  have hassigned := hintact.assigned_iff
  refine ⟨hassigned, fun node slot => hintact.assignedSlot_eq_some_iff, ?_, ?_, ?_, ?_⟩
  · exact fun slot node host => hintact.assignedNodes_eq_filter
  · intro slot
    cases hlisted : store.assignedNodes slot with
    | nil => exact List.nodup_nil
    | cons node nodes =>
        have hnode : node ∈ store.assignedNodes slot := hlisted ▸ List.mem_cons_self
        obtain ⟨host, -, hhost, -⟩ :=
          hintact.assignedSlot_eq_some_iff.mp ((hassigned node slot).mpr hnode)
        rw [← hlisted, hintact.assignedNodes_eq_filter hnode hhost]
        exact (hintact.nodup_children host).filter _
  · intro slot other hne node hslot hother
    rw [← hassigned] at hslot hother
    exact hne (Option.some.inj (hslot.symm.trans hother))
  · intro slot hlisted
    obtain ⟨node, hnode⟩ := List.exists_mem_of_ne_nil _ hlisted
    exact hintact.isSlot_of_assigned ((hassigned node slot).mpr hnode)

end FlatTree.Store
