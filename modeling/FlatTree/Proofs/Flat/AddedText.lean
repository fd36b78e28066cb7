import FlatTree.Proofs.Flat.CharacterData

/-!
# A text among the children of a host

A text that is added to the children of a host goes to the end of the list of one slot, or of none.  It
stands in the place of the slot's own children if no other node is assigned to that slot, and then these are
shown no longer.  Where there is nothing to hide, because they have no flat parents and the slot shows only
text and comments of its own, the tree differs in text from what it was.
-/

namespace FlatTree.NodeTree

open Relation

variable {ν : Type} [DecidableEq ν]

/-- Nothing is lost where the own children of a slot are not shown: they have no flat parents, and all that
the slot shows is text and comments. -/
structure ShowsNothing (tree : NodeTree ν) (slot : ν) : Prop where
  flatParent_child : ∀ child ∈ tree.children slot, tree.flatParent child = none
  isCharacterData : ∀ node, ReflTransGen tree.Shows slot node → tree.isSlot node = false →
    tree.isCharacterData node = true

/-- The target has one more node than the source: a text that is the last child of a host and the last node
assigned to the given slot. -/
structure GainsText (source target : NodeTree ν) (host added : ν) (slot : Option ν) : Prop where
  linked_source : source.Linked
  linked_target : target.Linked
  lists_source : source.ListsNodes
  lists_target : target.ListsNodes
  nodes : target.nodes = source.nodes ++ [added]
  not_mem : added ∉ source.nodes
  document : target.document = source.document
  nodeType_added : target.nodeType added = .text
  nodeType : ∀ node, node ≠ added → target.nodeType node = source.nodeType node
  parent : ∀ node, node ≠ added → target.parent node = source.parent node
  children : ∀ node,
    target.children node = source.children node ++ if node = host then [added] else []
  shadowRoot : ∀ node, target.shadowRoot node = source.shadowRoot node
  shadowHost : ∀ node, target.host node = source.host node
  isSlot : ∀ node, target.isSlot node = source.isSlot node
  assignedNodes : ∀ node,
    target.assignedNodes node = source.assignedNodes node ++ if slot = some node then [added] else []
  assignedSlot : ∀ node, node ≠ added → target.assignedSlot node = source.assignedSlot node
  localName : ∀ node, target.localName node = source.localName node
  space : ∀ node, target.space node = source.space node
  attributeValue : ∀ node name, target.attributeValue node name = source.attributeValue node name
  mem_document : source.document ∈ source.nodes
  mem_of_isElement : ∀ node, source.isElement node = true → node ∈ source.nodes
  mem_of_parent : ∀ node parent, source.parent node = some parent → parent ∈ source.nodes
  isElement_of_isSlot : ∀ node, source.isSlot node = true → source.isElement node = true
  below_added : source.shadowRoot added = none ∧ target.children added = []
  below_characterData : ∀ node, source.isCharacterData node = true →
    source.shadowRoot node = none ∧ target.children node = []

omit [DecidableEq ν] in
theorem eq_added_of_mem_ite {holds : Prop} [Decidable holds] {added : ν} :
    ∀ node ∈ if holds then [added] else [], node = added := by
  intro node hnode
  split at hnode
  · exact List.mem_singleton.mp hnode
  · contradiction

namespace GainsText

variable {source target : NodeTree ν} {host added : ν} {slot : Option ν}
  (hgains : source.GainsText target host added slot)

include hgains

theorem mem_of_isSlot (node : ν) (hslot : source.isSlot node = true) : node ∈ source.nodes :=
  hgains.mem_of_isElement node (hgains.isElement_of_isSlot node hslot)

theorem ne_added_of_mem {node : ν} (hnode : node ∈ source.nodes) : node ≠ added :=
  ne_of_mem_of_not_mem hnode hgains.not_mem

theorem not_slot_added : target.isSlot added = false := by
  rw [hgains.isSlot, Bool.eq_false_iff]
  exact fun hslot => hgains.not_mem (hgains.mem_of_isSlot added hslot)

theorem isCharacterData_iff (node : ν) :
    target.isCharacterData node = true ↔ node = added ∨ source.isCharacterData node = true := by
  by_cases hnode : node = added
  · refine iff_of_true ?_ (Or.inl hnode)
    rw [hnode, isCharacterData, hgains.nodeType_added]
    rfl
  · rw [or_iff_right hnode, isCharacterData, isCharacterData, hgains.nodeType node hnode]

theorem assignedNodes_ne_nil {node : ν} (hnode : slot = some node) : target.assignedNodes node ≠ [] := by
  rw [hgains.assignedNodes, if_pos hnode]
  exact List.append_ne_nil_of_right_ne_nil _ (List.cons_ne_nil added [])

theorem isSlot_of_eq {node : ν} (hnode : slot = some node) : source.isSlot node = true := by
  have hassigned : added ∈ target.assignedNodes node := by
    rw [hgains.assignedNodes, if_pos hnode]
    exact List.mem_append_right _ (List.mem_singleton_self added)
  rw [← hgains.isSlot]
  exact hgains.linked_target.isSlot_of_assigned added node
    ((hgains.linked_target.assigned_iff added node).mpr hassigned)

theorem standsFor_slot {node : ν} (hnode : slot = some node) (hempty : source.assignedNodes node = []) :
    target.standsFor node = [added] := by
  rw [standsFor, hgains.assignedNodes, hempty, if_pos hnode]
  rfl

/-- A slot that is not left without its own children stands for the same nodes as before, and perhaps for
the added one. -/
theorem standsFor_eq {node : ν} (hkeeps : slot = some node → source.assignedNodes node ≠ []) :
    ∃ more, (∀ other ∈ more, other = added) ∧ target.standsFor node = source.standsFor node ++ more := by
  rw [standsFor, standsFor, hgains.assignedNodes]
  cases hassigned : source.assignedNodes node with
  | nil =>
      rw [if_neg fun hnode => hkeeps hnode hassigned, List.append_nil]
      exact ⟨_, eq_added_of_mem_ite, hgains.children node⟩
  | cons first others => exact ⟨_, eq_added_of_mem_ite, rfl⟩

theorem isElement (node : ν) : target.isElement node = source.isElement node := by
  by_cases hnode : node = added
  · have hsource : source.isElement added = false := by
      rw [Bool.eq_false_iff]
      exact fun helement => hgains.not_mem (hgains.mem_of_isElement added helement)
    rw [hnode, hsource, NodeTree.isElement, hgains.nodeType_added]
    rfl
  · rw [NodeTree.isElement, NodeTree.isElement, hgains.nodeType node hnode]

theorem ne_added_of_isSlot {node : ν} (hslot : source.isSlot node = true) : node ≠ added :=
  hgains.ne_added_of_mem (hgains.mem_of_isSlot node hslot)

theorem branching_expand_added (unused : List ν) : target.branching (target.expand unused added) = [] := by
  rw [expand, hgains.not_slot_added, if_neg Bool.false_ne_true, branching_eq_nil_iff]
  intro node hnode
  exact (hgains.isCharacterData_iff node).mpr (Or.inl (List.mem_singleton.mp hnode))

/-! ## Flat children -/

/-- There is nothing below text and comments. -/
theorem flatChildren_eq_nil {node : ν} (hdata : target.isCharacterData node = true) :
    source.flatChildren node = [] ∧ target.flatChildren node = [] := by
  have hslot : source.isSlot node = false := by
    rw [Bool.eq_false_iff]
    intro hslot
    have helement := hgains.isElement_of_isSlot node hslot
    rw [← hgains.isElement, isElement_eq_false hdata] at helement
    contradiction
  have hbelow : source.shadowRoot node = none ∧ target.children node = [] := by
    rcases (hgains.isCharacterData_iff node).mp hdata with rfl | hdata
    · exact hgains.below_added
    · exact hgains.below_characterData node hdata
  have hchildren : source.children node = [] :=
    (List.append_eq_nil_iff.mp ((hgains.children node).symm.trans hbelow.2)).1
  constructor
  · rw [NodeTree.flatChildren, unexpanded, hbelow.1, hslot, hchildren]
    rfl
  · rw [NodeTree.flatChildren, unexpanded, hgains.shadowRoot, hbelow.1, hgains.isSlot, hslot, hbelow.2]
    rfl

/-- Where entries expand alike but for text and comments, so do lists of them, be the added node among them
or not. -/
theorem branching_entries {unused others entries more : List ν}
    (hexpand : ∀ entry,
      target.branching (target.expand others entry) = target.branching (source.expand unused entry))
    (hmore : ∀ entry ∈ more, entry = added) :
    target.branching ((entries ++ more).flatMap (target.expand others)) =
      target.branching (entries.flatMap (source.expand unused)) := by
  have hnone : target.branching (more.flatMap (target.expand others)) = [] := by
    rw [branching_flatMap, List.flatMap_eq_nil_iff]
    intro entry hentry
    rw [hmore entry hentry]
    exact hgains.branching_expand_added others
  rw [List.flatMap_append, branching_append, hnone, List.append_nil, branching_flatMap, branching_flatMap]
  exact List.flatMap_congr fun entry _ => hexpand entry

section ShowsNothing

variable (hnothing : ∀ node, slot = some node → source.assignedNodes node = [] →
  source.ShowsNothing node)

include hnothing

/-- Where the entries expand alike but for text and comments, so does what a slot stands for. -/
theorem branching_standsFor {node : ν} (hslot : source.isSlot node = true) {unused others : List ν}
    (hexpand : ∀ entry,
      target.branching (target.expand others entry) = target.branching (source.expand unused entry)) :
    target.branching ((target.standsFor node).flatMap (target.expand others)) =
      target.branching ((source.standsFor node).flatMap (source.expand unused)) := by
  by_cases hkeeps : slot = some node → source.assignedNodes node ≠ []
  · obtain ⟨more, hmore, hstands⟩ := hgains.standsFor_eq hkeeps
    rw [hstands]
    exact hgains.branching_entries hexpand hmore
  · -- The slot has had no assigned nodes, and the added one takes the place of its own children.
    obtain ⟨hnode, hempty⟩ := Classical.not_imp.mp hkeeps
    rw [not_not] at hempty
    have hsource : target.branching ((source.standsFor node).flatMap (source.expand unused)) = [] := by
      rw [branching_eq_nil_iff]
      intro shown hshown
      obtain ⟨entry, hentry, hshown⟩ := List.mem_flatMap.mp hshown
      obtain ⟨hnot, hpath⟩ := mem_expand_iff.mp hshown
      have hbelow : ReflTransGen source.Shows node shown :=
        .head ⟨hslot, hentry⟩ (ReflTransGen.mono (fun _ _ hstep => hstep.2) _ _ hpath)
      exact (hgains.isCharacterData_iff shown).mpr
        (Or.inr ((hnothing node hnode hempty).isCharacterData shown hbelow hnot))
    rw [hsource, hgains.standsFor_slot hnode hempty, List.flatMap_singleton]
    exact hgains.branching_expand_added others

theorem branching_expand {unused others : List ν}
    (hsame : ∀ node, source.isSlot node = true → (node ∈ others ↔ node ∈ unused)) (node : ν) :
    target.branching (target.expand others node) = target.branching (source.expand unused node) := by
  fun_induction source.expand unused node generalizing others with
  | case1 unused node hslot hmem ih =>
      rw [expand, hgains.isSlot, if_pos hslot, dif_pos ((hsame node hslot).mpr hmem)]
      apply hgains.branching_standsFor hnothing hslot
      intro entry
      apply ih entry
      intro other hother
      rw [mem_without, mem_without, hsame other hother]
  | case2 unused node hslot hmem =>
      rw [expand, hgains.isSlot, if_pos hslot, dif_neg (mt (hsame node hslot).mp hmem)]
  | case3 unused node hslot => rw [expand, hgains.isSlot, if_neg hslot]

theorem branching_expand_nodes (node : ν) :
    target.branching (target.expand target.nodes node) =
      target.branching (source.expand source.nodes node) := by
  apply hgains.branching_expand hnothing
  intro other hother
  rw [hgains.nodes]
  have hmem := hgains.mem_of_isSlot other hother
  exact iff_of_true (List.mem_append_left _ hmem) hmem

theorem branching_children (node : ν) :
    target.branching ((target.children node).flatMap (target.expand target.nodes)) =
      target.branching ((source.children node).flatMap (source.expand source.nodes)) := by
  rw [hgains.children]
  exact hgains.branching_entries (hgains.branching_expand_nodes hnothing) eq_added_of_mem_ite

theorem branching_flatChildren (node : ν) :
    target.branching (target.flatChildren node) = target.branching (source.flatChildren node) := by
  have hunexpanded : target.branching ((target.unexpanded node).flatMap (target.expand target.nodes)) =
      target.branching ((source.unexpanded node).flatMap (source.expand source.nodes)) := by
    rw [unexpanded, unexpanded, hgains.shadowRoot]
    cases source.shadowRoot node with
    | some root => exact hgains.branching_children hnothing root
    | none =>
        dsimp only
        rw [hgains.isSlot]
        split
        · rename_i hslot
          exact hgains.branching_standsFor hnothing hslot (hgains.branching_expand_nodes hnothing)
        · exact hgains.branching_children hnothing node
  rw [flatChildren, flatChildren, branching_eraseDups, branching_eraseDups, hunexpanded]

end ShowsNothing

/-! ## Flat parents -/

theorem mem_nodes_of_isSlot {node : ν} (hslot : target.isSlot node = true) : node ∈ target.nodes := by
  rw [hgains.isSlot] at hslot
  rw [hgains.nodes]
  exact List.mem_append_left _ (hgains.mem_of_isSlot node hslot)

theorem parentOutside {node : ν} (hnode : node ≠ added) :
    target.parentOutside node = source.parentOutside node := by
  rw [NodeTree.parentOutside, NodeTree.parentOutside, hgains.parent node hnode]
  cases hparent : source.parent node with
  | none => rfl
  | some parent =>
      have hne := hgains.ne_added_of_mem (hgains.mem_of_parent node parent hparent)
      simp only [hgains.nodeType parent hne, hgains.shadowHost, hgains.shadowRoot, hgains.isSlot]

theorem showsChildren {node : ν} (hnode : node ≠ added)
    (hkeeps : slot = some node → source.assignedNodes node ≠ []) :
    target.showsChildren node = source.showsChildren node := by
  have hempty : (target.assignedNodes node).isEmpty = (source.assignedNodes node).isEmpty := by
    rw [hgains.assignedNodes]
    split
    · rename_i hslot
      rw [List.isEmpty_eq_false_iff.mpr (hkeeps hslot), List.isEmpty_eq_false_iff]
      exact List.append_ne_nil_of_left_ne_nil (hkeeps hslot) [added]
    · rw [List.append_nil]
  rw [NodeTree.showsChildren, NodeTree.showsChildren, hgains.nodeType node hnode, hgains.shadowRoot,
    hgains.isSlot, hempty]

/-- The own children of the slot stand in its place no longer. -/
theorem slotAbove_child {node parent : ν} (hslot : slot = some parent)
    (hparent : target.parent node = some parent) (hassigned : target.assignedSlot node = none) :
    target.slotAbove node = none ∧ target.parentOutside node = none := by
  constructor
  · rw [slotAbove, hassigned, hparent, Option.filter_some, NodeTree.showsChildren,
      List.isEmpty_eq_false_iff.mpr (hgains.assignedNodes_ne_nil hslot), Bool.and_false]
    rfl
  · have hshown : target.isSlot parent = true := (hgains.isSlot parent).trans (hgains.isSlot_of_eq hslot)
    have helement := hgains.isElement_of_isSlot parent (hgains.isSlot_of_eq hslot)
    rw [← hgains.isElement, NodeTree.isElement, decide_eq_true_eq] at helement
    simp [NodeTree.parentOutside, hparent, helement, hshown]

theorem ne_added_of_slotAbove {below above : ν} (hstep : Leads source.slotAbove below above) :
    above ≠ added :=
  hgains.ne_added_of_isSlot (hgains.linked_source.shows_of_slotAbove hstep).1

section ShowsNothing

variable (hnothing : ∀ node, slot = some node → source.assignedNodes node = [] →
  source.ShowsNothing node)

include hnothing

/-- A node stands in the place of the same slot as before, or it had no flat parent and has come to stand in
the place of none and outside of the flat tree. -/
theorem slotAbove_or {node : ν} (hnode : node ≠ added) :
    target.slotAbove node = source.slotAbove node ∨
      source.flatParent node = none ∧ target.slotAbove node = none ∧
        target.parentOutside node = none := by
  rw [slotAbove, slotAbove, hgains.assignedSlot node hnode]
  cases hassigned : source.assignedSlot node with
  | some assigned => exact Or.inl rfl
  | none =>
      dsimp only
      rw [hgains.parent node hnode]
      cases hparent : source.parent node with
      | none => exact Or.inl rfl
      | some parent =>
          have hne := hgains.ne_added_of_mem (hgains.mem_of_parent node parent hparent)
          by_cases hkeeps : slot = some parent → source.assignedNodes parent ≠ []
          · rw [Option.filter_some, Option.filter_some, hgains.showsChildren hne hkeeps]
            exact Or.inl rfl
          · obtain ⟨hslot, hempty⟩ := Classical.not_imp.mp hkeeps
            rw [not_not] at hempty
            have hchild := (hgains.linked_source.mem_children_iff parent node).mpr hparent
            have hlost := hgains.slotAbove_child hslot ((hgains.parent node hnode).trans hparent)
              ((hgains.assignedSlot node hnode).trans hassigned)
            rw [slotAbove, hgains.assignedSlot node hnode, hassigned, hgains.parent node hnode,
              hparent] at hlost
            exact Or.inr ⟨(hnothing parent hslot hempty).flatParent_child node hchild, hlost⟩

/-- Nodes stand in the places of slots in which they have stood before. -/
theorem path_source_of_target {node top : ν} (hnode : node ≠ added)
    (hpath : ReflTransGen (Leads target.slotAbove) node top) :
    ReflTransGen (Leads source.slotAbove) node top ∧ top ≠ added := by
  induction hpath with
  | refl => exact ⟨.refl, hnode⟩
  | tail _ hstep ih =>
      rcases hgains.slotAbove_or hnothing ih.2 with hsame | ⟨-, hlost, -⟩
      · rw [Leads, hsame] at hstep
        exact ⟨ih.1.tail hstep, hgains.ne_added_of_slotAbove hstep⟩
      · rw [Leads, hlost] at hstep
        contradiction

/-- On the way to a flat parent every node has this flat parent, so that none of them has lost its slot. -/
theorem path_target_of_source {node top parent : ν} (hnode : node ≠ added)
    (hpath : ReflTransGen (Leads source.slotAbove) node top) (hparent : source.flatParent top = some parent) :
    ReflTransGen (Leads target.slotAbove) node top ∧ top ≠ added := by
  induction hpath using ReflTransGen.head_induction_on with
  | refl => exact ⟨.refl, hnode⟩
  | head hstep hrest ih =>
      obtain ⟨hpath, htop⟩ := ih (hgains.ne_added_of_slotAbove hstep)
      rcases hgains.slotAbove_or hnothing hnode with hsame | ⟨hlost, -⟩
      · exact ⟨.head (hsame.trans hstep) hpath, htop⟩
      · rw [hgains.linked_source.flatParent_of_path hgains.mem_of_isSlot (.head hstep hrest) hparent] at hlost
        contradiction

/-- The added node changes no flat parent. -/
theorem flatParent {node : ν} (hnode : node ≠ added) :
    target.flatParent node = source.flatParent node := by
  have hsource {top parent : ν} : source.flatParent top = some parent ↔ _ :=
    hgains.linked_source.flatParent_eq_some_iff hgains.mem_of_isSlot
  have htarget {top parent : ν} : target.flatParent top = some parent ↔ _ :=
    hgains.linked_target.flatParent_eq_some_iff fun _ => hgains.mem_nodes_of_isSlot
  apply Option.ext
  intro parent
  rw [hsource, htarget]
  constructor
  · rintro ⟨top, hpath, hnone, houtside⟩
    obtain ⟨hkept, htop⟩ := hgains.path_source_of_target hnothing hnode hpath
    rcases hgains.slotAbove_or hnothing htop with hsame | ⟨-, -, hlost⟩
    · rw [hsame] at hnone
      rw [hgains.parentOutside htop] at houtside
      exact ⟨top, hkept, hnone, houtside⟩
    · rw [hlost] at houtside
      contradiction
  · rintro ⟨top, hpath, hnone, houtside⟩
    obtain ⟨hkept, htop⟩ :=
      hgains.path_target_of_source hnothing hnode hpath (hsource.mpr ⟨top, .refl, hnone, houtside⟩)
    refine ⟨top, hkept, ?_, (hgains.parentOutside htop).trans houtside⟩
    rcases hgains.slotAbove_or hnothing htop with hsame | ⟨-, hlost, -⟩
    · exact hsame.trans hnone
    · exact hlost

/-! ## The same but for text -/

theorem differsInText (hparents : ∀ node parent, source.flatParent node = some parent →
    parent ∈ source.nodes) : source.DiffersInText target where
  document := hgains.document
  length_nodes := by
    rw [hgains.nodes, List.length_append]
    exact Nat.le_add_right _ _
  isElement := hgains.isElement
  localName := hgains.localName
  space := hgains.space
  attributeValue := hgains.attributeValue
  mem_document := hgains.mem_document
  mem_of_isElement := hgains.mem_of_isElement
  mem_of_flatParent := hparents
  flatParent := fun _ hnode => hgains.flatParent hnothing (hgains.ne_added_of_mem hnode)
  flatChildren := hgains.branching_flatChildren hnothing
  flatChildren_eq_nil := fun _ => hgains.flatChildren_eq_nil
  lists_source := hgains.lists_source
  lists_target := hgains.lists_target

end ShowsNothing

end GainsText

end FlatTree.NodeTree
