import FlatTree.Proofs.Flat.AddedText
import FlatTree.Proofs.Store.Ascent
import FlatTree.Proofs.Store.Entries
import FlatTree.Proofs.Store.TreeOrder

/-!
# A new text in a host

A new text that is appended to a host is a leaf at the end of its list of children.  It is no slot and
bears no name, so the slots of all shadow trees and their names stay as they are, and it is itself assigned
to the first nameless slot of the host's shadow tree, whatever it consists of.
-/

namespace FlatTree

section Leaf

variable {ν : Type} [DecidableEq ν] {below more : ν → List ν} {host leaf : ν}
  (hmore : ∀ node, more node = below node ++ if node = host then [leaf] else [])
  (hleaf : more leaf = [])

include hleaf

theorem filter_preorder_leaf (levels : Nat) : (preorder more levels leaf).filter (· ≠ leaf) = [] := by
  cases levels with
  | zero => rfl
  | succ levels => simp [preorder, hleaf]

include hmore

/-- A new leaf comes into a listing without changing the order of the other nodes. -/
theorem filter_preorder (hnew : ∀ node, leaf ∉ below node) (levels : Nat) {node : ν}
    (hnode : node ≠ leaf) : (preorder more levels node).filter (· ≠ leaf) = preorder below levels node := by
  induction levels generalizing node with
  | zero => rfl
  | succ levels ih =>
      have hothers : (below node).flatMap (fun child => (preorder more levels child).filter (· ≠ leaf)) =
          (below node).flatMap (preorder below levels) := by
        apply List.flatMap_congr
        intro child hchild
        exact ih (ne_of_mem_of_not_mem hchild (hnew node))
      have hadded : (if node = host then [leaf] else []).flatMap
          (fun child => (preorder more levels child).filter (· ≠ leaf)) = [] := by
        split
        · rw [List.flatMap_singleton, filter_preorder_leaf hleaf]
        · rfl
      rw [preorder, preorder, List.filter_cons_of_pos (by simpa using hnode), hmore,
        List.flatMap_append, List.filter_append, List.filter_flatMap, List.filter_flatMap, hothers, hadded,
        List.append_nil]

end Leaf

end FlatTree

namespace FlatTree.Store

open Relation

variable {store next : Store} {host root : Nat}

theorem isCharacterData_toTree_iff {node : Nat} :
    store.toTree.isCharacterData node = true ↔
      store.nodeType node = .text ∨ store.nodeType node = .comment := by
  rw [NodeTree.isCharacterData, Bool.or_eq_true, decide_eq_true_eq, decide_eq_true_eq]
  rfl

theorem nodeType_of_enclosingRoot {node top : Nat} (htop : store.enclosingRoot node = some top) :
    store.nodeType top = .shadowRoot := by
  rw [enclosingRoot, Option.ite_none_right_eq_some, Option.some.injEq] at htop
  obtain ⟨htype, rfl⟩ := htop
  exact htype

section Consistent

variable (hconsistent : store.Consistent)

include hconsistent

theorem Consistent.nodeType_of_shadowRoot {above top : Nat} (htop : store.shadowRoot above = some top) :
    store.nodeType top = .shadowRoot :=
  (hconsistent.nodeType_iff top).mpr ⟨above, (hconsistent.shadowRoot_iff above top).mp htop⟩

theorem Consistent.enclosingRoot_of_firstSlot {top slot : Nat} {name : String}
    (htop : store.nodeType top = .shadowRoot) (hfirst : store.firstSlot top name = some slot) :
    store.enclosingRoot slot = some top :=
  hconsistent.enclosingRoot_eq htop (mem_firstSlot hfirst).1

theorem Consistent.isSlot_of_firstSlot {top slot : Nat} {name : String}
    (htop : store.nodeType top = .shadowRoot) (hfirst : store.firstSlot top name = some slot) :
    store.isSlot slot = true := by
  rw [isSlot, (mem_firstSlot hfirst).2.1, hconsistent.enclosingRoot_of_firstSlot htop hfirst]
  rfl

theorem Consistent.assignedNodes_eq_nil {slot : Nat} (hslot : store.isSlot slot = false) :
    store.assignedNodes slot = [] := by
  rw [List.eq_nil_iff_forall_not_mem]
  intro node hnode
  rw [hconsistent.isSlot_of_assigned ((hconsistent.assigned_iff node slot).mpr hnode)] at hslot
  contradiction

theorem Consistent.lt_size_of_mem_children {above node : Nat} (hnode : node ∈ store.children above) :
    node < store.size :=
  (hconsistent.lt_size_of_parent ((hconsistent.mem_children_iff above node).mp hnode)).1

theorem Consistent.listsNodes_toTree : store.toTree.ListsNodes where
  mem_of_mem_children := fun _ _ hnode => List.mem_range.mpr (hconsistent.lt_size_of_mem_children hnode)
  mem_of_mem_assignedNodes := by
    intro slot node hnode
    obtain ⟨-, above, -, -, -, hchild, -⟩ := mem_assignedNodes_iff.mp hnode
    exact List.mem_range.mpr (hconsistent.lt_size_of_mem_children hchild)

end Consistent

/-- The store has one more node, a text that is the last child of a host. -/
structure GainsText (store next : Store) (host root : Nat) : Prop where
  intact : store.Intact
  intact_next : next.Intact
  hosts : store.shadowRoot host = some root
  size : next.size = store.size + 1
  nodeType : ∀ node, next.nodeType node = if node = store.size then .text else store.nodeType node
  element? : ∀ node, next.element? node = store.element? node
  parent : ∀ node, next.parent node = if node = store.size then some host else store.parent node
  children : ∀ node,
    next.children node = store.children node ++ if node = host then [store.size] else []
  shadowRoot : ∀ node, next.shadowRoot node = store.shadowRoot node
  shadowHost : ∀ node, next.host node = store.host node

/-- Nothing is in the way of appending a new text to a host. -/
theorem Intact.gainsText (hintact : store.Intact) (hhosts : store.shadowRoot host = some root)
    (text : String) :
    ∃ next, (store.create (.text text)).2.append host store.size = (.ok (), next) ∧
      store.GainsText next host root := by
  have htype := hintact.nodeType_host host root hhosts
  have hmade : store.AddsLone (store.create (.text text)).2 (.text text) :=
    hintact.addsLone_create (by rintro ⟨⟩) (by rintro _ ⟨⟩)
  have hholds : store.CanHold host := by
    refine ⟨lt_size_of_nodeType ?_, ?_, ?_⟩
    all_goals
      rw [htype]
      decide
  obtain ⟨next, hnext⟩ := hmade.exists_append (by rintro ⟨⟩) hholds
  have hfresh (node : Nat) : store.size ∉ store.children node := by
    rw [hintact.mem_children_iff]
    exact fun hparent => Nat.lt_irrefl _ (hintact.lt_size_of_parent hparent).1
  refine ⟨next, hnext, hintact, hmade.intact.append hnext, hhosts, ?_, ?_, ?_, ?_, ?_, ?_, ?_⟩
  · rw [size_append hnext, hmade.size]
  · intro node
    rw [hmade.intact.nodeType_append hnext, nodeType_create]
    rfl
  · intro node
    have hcreated : (((store.create (.text text)).2.node? node).bind fun stored => stored.content.element?) =
        (store.node? node).bind fun stored => stored.content.element? :=
      observe_create (·.bind fun stored => stored.content.element?) rfl node
    have hcontent := congrArg (·.bind Content.element?) (hmade.intact.content_append hnext node)
    simp only [Option.bind_map] at hcontent
    rw [element?_eq_bind, element?_eq_bind, ← hcreated]
    exact hcontent
  · intro node
    rw [hmade.intact.parent_append hnext, parent_create]
  · intro node
    rw [hmade.intact.children_append hnext, children_create, List.erase_of_not_mem (hfresh node)]
  · exact hmade.shadowRoot_append hnext
  · intro node
    rw [hmade.intact.host_append hnext, host_create]

namespace GainsText

variable (hgains : store.GainsText next host root)

include hgains

theorem nodeType_root : store.nodeType root = .shadowRoot :=
  hgains.intact.nodeType_of_shadowRoot hgains.hosts

theorem not_mem_children (node : Nat) : store.size ∉ store.children node := by
  rw [hgains.intact.mem_children_iff]
  exact fun hparent => Nat.lt_irrefl _ (hgains.intact.lt_size_of_parent hparent).1

theorem children_added : next.children store.size = [] := by
  apply hgains.intact_next.children_eq_nil
  rw [hgains.nodeType, if_pos rfl]
  exact Or.inl rfl

theorem attribute? (node : Nat) (name : String) :
    next.attribute? node name = store.attribute? node name := by
  rw [Store.attribute?, Store.attribute?, hgains.element?]

theorem hasSlotTag (node : Nat) : next.hasSlotTag node = store.hasSlotTag node := by
  rw [Store.hasSlotTag, Store.hasSlotTag, hgains.element?]

theorem nameOfSlot (node : Nat) : next.nameOfSlot node = store.nameOfSlot node := by
  rw [Store.nameOfSlot, Store.nameOfSlot, hgains.attribute?]

theorem not_slotTag_added : next.hasSlotTag store.size = false := by
  rw [Store.hasSlotTag, element?_eq_none]
  · rfl
  · rw [hgains.nodeType, if_pos rfl]
    decide

/-- The slots of a shadow tree are found as before. -/
theorem firstSlot {top : Nat} (htop : store.nodeType top = .shadowRoot) (name : String) :
    next.firstSlot top name = store.firstSlot top name := by
  have hlt : top < store.size := by
    apply lt_size_of_nodeType
    rw [htop]
    decide
  have hlisting : (next.descendants top).filter (· ≠ store.size) = store.descendants top := by
    rw [descendants, descendants, listTree_eq_preorder, listTree_eq_preorder,
      filter_preorder hgains.children hgains.children_added hgains.not_mem_children _
        (Nat.ne_of_lt hlt), hgains.size]
    exact preorder_of_spansWithin (hgains.intact.spansWithin_children hlt) (Nat.le_succ _)
  have hpasses : (fun node => next.hasSlotTag node && decide (next.nameOfSlot node = name)) =
      fun node => store.hasSlotTag node && decide (store.nameOfSlot node = name) := by
    funext node
    rw [hgains.hasSlotTag, hgains.nameOfSlot]
  rw [Store.firstSlot, Store.firstSlot, ← hlisting, List.find?_filter, hpasses]
  congr 1
  funext node
  by_cases hnode : node = store.size
  · rw [hnode, ← hgains.hasSlotTag, hgains.not_slotTag_added]
    simp
  · simp [hnode]

theorem wantedSlot {node : Nat} (hnode : node ≠ store.size) :
    next.wantedSlot node = store.wantedSlot node := by
  rw [Store.wantedSlot, Store.wantedSlot, hgains.nodeType, if_neg hnode, hgains.attribute?]

theorem wantedSlot_added : next.wantedSlot store.size = some "" := by
  rw [Store.wantedSlot, hgains.nodeType, if_pos rfl]

/-- The old nodes are in the same trees. -/
theorem enclosingRoot {node : Nat} (hnode : node ≠ store.size) :
    next.enclosingRoot node = store.enclosingRoot node := by
  obtain ⟨top, hpath, hnone⟩ := (hgains.intact.endsWithin_parent node).exists_last
  have hkept : ReflTransGen (Leads next.parent) node top ∧ top ≠ store.size := by
    clear hnone
    induction hpath with
    | refl => exact ⟨.refl, hnode⟩
    | @tail below above _ hstep ih =>
        have habove := (hgains.intact.lt_size_of_parent hstep).2
        exact ⟨ih.1.tail (((hgains.parent below).trans (if_neg ih.2)).trans hstep), Nat.ne_of_lt habove⟩
  have hnext : next.root node = top :=
    hgains.intact_next.root_eq hkept.1 (((hgains.parent top).trans (if_neg hkept.2)).trans hnone)
  rw [Store.enclosingRoot, Store.enclosingRoot, hnext, hgains.intact.root_eq hpath hnone,
    hgains.nodeType, if_neg hkept.2]

theorem isSlot (node : Nat) : next.isSlot node = store.isSlot node := by
  rw [Store.isSlot, Store.isSlot, hgains.hasSlotTag]
  by_cases hnode : node = store.size
  · rw [hnode, ← hgains.hasSlotTag, hgains.not_slotTag_added, Bool.false_and, Bool.false_and]
  · rw [hgains.enclosingRoot hnode]

/-! ## Assignment -/

/-- The first nameless slot of the host's shadow tree is known by its own tree, host and name. -/
theorem firstSlot_nameless_iff {slot top above : Nat} (htop : store.enclosingRoot slot = some top)
    (habove : store.host top = some above) :
    store.firstSlot root "" = some slot ↔
      store.firstSlot top (store.nameOfSlot slot) = some slot ∧ above = host ∧
        store.nameOfSlot slot = "" := by
  have hroot := (hgains.intact.shadowRoot_iff host root).mp hgains.hosts
  constructor
  · intro hfirst
    have hsame := hgains.intact.enclosingRoot_of_firstSlot hgains.nodeType_root hfirst
    obtain rfl : top = root := Option.some.inj (htop.symm.trans hsame)
    obtain rfl : above = host := Option.some.inj (habove.symm.trans hroot)
    have hname := (mem_firstSlot hfirst).2.2
    exact ⟨hname.symm ▸ hfirst, rfl, hname⟩
  · rintro ⟨hfirst, rfl, hname⟩
    have hhosts := (hgains.intact.shadowRoot_iff above top).mpr habove
    obtain rfl : top = root := Option.some.inj (hhosts.symm.trans hgains.hosts)
    rwa [hname] at hfirst

/-- Among the children of a node the new text is one more that asks for a slot without a name. -/
theorem filter_wantedSlot (above : Nat) (name : String) :
    (next.children above).filter (fun child => next.wantedSlot child = some name) =
      ((store.children above).filter fun child => store.wantedSlot child = some name) ++
        if above = host ∧ name = "" then [store.size] else [] := by
  have hold : (store.children above).filter (fun child => next.wantedSlot child = some name) =
      (store.children above).filter fun child => store.wantedSlot child = some name := by
    apply List.filter_congr
    intro child hchild
    rw [hgains.wantedSlot (ne_of_mem_of_not_mem hchild (hgains.not_mem_children above))]
  rw [hgains.children, List.filter_append, hold]
  congr 1
  by_cases hhost : above = host
  · by_cases hname : name = ""
    · rw [if_pos hhost, if_pos ⟨hhost, hname⟩]
      simp [hgains.wantedSlot_added, hname]
    · rw [if_pos hhost, if_neg fun hall => hname hall.2]
      simp [hgains.wantedSlot_added, Ne.symm hname]
  · rw [if_neg hhost, if_neg fun hall => hhost hall.1]
    rfl

/-- The new text is assigned to the first nameless slot, behind all that is assigned to it already. -/
theorem assignedNodes (slot : Nat) :
    next.assignedNodes slot =
      store.assignedNodes slot ++ if store.firstSlot root "" = some slot then [store.size] else [] := by
  cases hslot : store.isSlot slot with
  | false =>
      have hnot : store.firstSlot root "" ≠ some slot := by
        intro hfirst
        rw [hgains.intact.isSlot_of_firstSlot hgains.nodeType_root hfirst] at hslot
        contradiction
      rw [if_neg hnot, hgains.intact.assignedNodes_eq_nil hslot, List.append_nil]
      exact hgains.intact_next.assignedNodes_eq_nil ((hgains.isSlot slot).trans hslot)
  | true =>
      have hne : slot ≠ store.size := by
        rintro rfl
        rw [Store.isSlot, ← hgains.hasSlotTag, hgains.not_slotTag_added] at hslot
        contradiction
      obtain ⟨top, htop⟩ := Option.isSome_iff_exists.mp (Bool.and_eq_true_iff.mp hslot).2
      have htype := nodeType_of_enclosingRoot htop
      obtain ⟨above, habove⟩ := (hgains.intact.nodeType_iff top).mp htype
      have hnameless := hgains.firstSlot_nameless_iff htop habove
      rw [Store.assignedNodes, Store.assignedNodes, hgains.enclosingRoot hne, htop]
      dsimp only
      rw [hgains.nameOfSlot, hgains.firstSlot htype, hgains.shadowHost, habove]
      by_cases hfirst : store.firstSlot top (store.nameOfSlot slot) = some slot
      · rw [if_pos hfirst, if_pos hfirst]
        dsimp only
        simp only [hgains.filter_wantedSlot, hnameless, hfirst, true_and]
      · rw [if_neg hfirst, if_neg hfirst, if_neg fun hall => hfirst (hnameless.mp hall).1]
        rfl

theorem assignedSlot {node : Nat} (hnode : node ≠ store.size) :
    next.assignedSlot node = store.assignedSlot node := by
  rw [Store.assignedSlot, Store.assignedSlot, hgains.wantedSlot hnode, hgains.parent, if_neg hnode]
  cases store.wantedSlot node with
  | none => rfl
  | some name =>
      cases store.parent node with
      | none => rfl
      | some parent =>
          rw [Option.bind_some, Option.bind_some, hgains.shadowRoot]
          cases htop : store.shadowRoot parent with
          | none => rfl
          | some top => exact hgains.firstSlot (hgains.intact.nodeType_of_shadowRoot htop) name

/-! ## The trees -/

theorem gainsText_toTree :
    store.toTree.GainsText next.toTree host store.size (store.firstSlot root "") where
  linked_source := hgains.intact.linked_toTree
  linked_target := hgains.intact_next.linked_toTree
  lists_source := hgains.intact.listsNodes_toTree
  lists_target := hgains.intact_next.listsNodes_toTree
  nodes := by
    change List.range next.size = List.range store.size ++ [store.size]
    rw [hgains.size, List.range_succ]
  not_mem := fun hmem => Nat.lt_irrefl _ (List.mem_range.mp hmem)
  document := rfl
  nodeType_added := (hgains.nodeType _).trans (if_pos rfl)
  nodeType := fun node hnode => (hgains.nodeType node).trans (if_neg hnode)
  parent := fun node hnode => (hgains.parent node).trans (if_neg hnode)
  children := hgains.children
  shadowRoot := hgains.shadowRoot
  shadowHost := hgains.shadowHost
  isSlot := hgains.isSlot
  assignedNodes := hgains.assignedNodes
  assignedSlot := fun _ => hgains.assignedSlot
  localName := by
    intro node
    change ((next.element? node).map Element.name).getD "" = _
    rw [hgains.element?]
    rfl
  space := by
    intro node
    change (next.element? node).bind Element.space = _
    rw [hgains.element?]
    rfl
  attributeValue := hgains.attribute?
  mem_document := List.mem_range.mpr hgains.intact.size_pos
  mem_of_isElement := by
    intro node helement
    have htype : store.nodeType node = .element := of_decide_eq_true helement
    apply List.mem_range.mpr
    apply lt_size_of_nodeType
    rw [htype]
    decide
  mem_of_parent := fun _ _ hparent => List.mem_range.mpr (hgains.intact.lt_size_of_parent hparent).2
  isElement_of_isSlot := fun _ hslot => decide_eq_true (nodeType_of_isSlot hslot)
  below_added := by
    refine ⟨?_, hgains.children_added⟩
    change store.shadowRoot store.size = none
    rw [Store.shadowRoot, node?_size]
    rfl
  below_characterData := by
    intro node hdata
    have hkind := isCharacterData_toTree_iff.mp hdata
    constructor
    · rw [Option.eq_none_iff_forall_ne_some]
      intro top htop
      have helement := hgains.intact.nodeType_host node top htop
      rw [helement] at hkind
      rcases hkind with htype | htype
      · contradiction
      · contradiction
    · apply hgains.intact_next.children_eq_nil
      have hlt : node < store.size := by
        apply lt_size_of_nodeType
        rcases hkind with htype | htype
        · rw [htype]
          decide
        · rw [htype]
          decide
      rwa [hgains.nodeType, if_neg (Nat.ne_of_lt hlt)]

end GainsText

end FlatTree.Store
