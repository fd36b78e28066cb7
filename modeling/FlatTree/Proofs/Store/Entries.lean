import FlatTree.Proofs.Store.Integrity

/-!
# Entries of a store

The entry of a node tells what it holds and what it hangs on, its parent or its host.  The entries in the
order of creation say what an intact store is, up to the order of children.  Where each node hangs on an
older one, no node is above itself and the nodes of the document are all there are.
-/

namespace FlatTree

open Relation

/-- What a node holds, and its parent or, for a shadow root, its host. -/
def StoredNode.entry (stored : StoredNode) : Content × Option Nat :=
  (stored.content, if stored.content.nodeType = .shadowRoot then stored.host else stored.parent)

theorem eq_concat_iff {α : Type} {items front : List α} {item : α} :
    items = front ++ [item] ↔
      ∀ index, items[index]? = if index = front.length then some item else front[index]? := by
  have hconcat (index : Nat) : (front ++ [item])[index]? =
      if index = front.length then some item else front[index]? := by
    rcases Nat.lt_trichotomy index front.length with hlt | rfl | hgt
    · rw [List.getElem?_append_left hlt, if_neg (Nat.ne_of_lt hlt)]
    · rw [List.getElem?_concat_length, if_pos rfl]
    · rw [if_neg (Nat.ne_of_gt hgt), List.getElem?_eq_none (Nat.le_of_lt hgt), List.getElem?_eq_none]
      rw [List.length_append]
      exact hgt
  constructor
  · rintro rfl
    exact hconcat
  · intro hitems
    apply List.ext_getElem?
    intro index
    rw [hitems, hconcat]

namespace Store

/-- The entries of all nodes in the order of their creation. -/
def entries (store : Store) : List (Content × Option Nat) :=
  store.nodes.toList.map StoredNode.entry

variable {store : Store}

theorem getElem?_entries (store : Store) (node : Nat) :
    store.entries[node]? = (store.node? node).map StoredNode.entry := by
  rw [entries, List.getElem?_map, Array.getElem?_toList]
  rfl

@[simp]
theorem length_entries (store : Store) : store.entries.length = store.size := by
  rw [entries, List.length_map, Array.length_toList]
  rfl

theorem nodeType_eq_of_entries (store : Store) (node : Nat) :
    store.nodeType node = (store.entries[node]?.map fun entry => entry.1.nodeType).getD .document := by
  rw [getElem?_entries, Option.map_map]
  rfl

theorem above_eq_of_entries (store : Store) (node : Nat) :
    store.above node = store.entries[node]?.bind Prod.snd := by
  rw [getElem?_entries, above, nodeType, host, parent]
  cases store.node? node with
  | none => rfl
  | some stored => rfl

@[simp]
theorem entries_new : new.entries = [(.document, none)] := rfl

/-! ## Edits -/

theorem entries_create (content : Content) (hroot : content.nodeType ≠ .shadowRoot) :
    (store.create content).2.entries = store.entries ++ [(content, none)] := by
  rw [eq_concat_iff]
  intro node
  rw [getElem?_entries, node?_create, getElem?_entries, length_entries]
  split
  · rw [Option.map_some, StoredNode.entry]
    exact congrArg some (Prod.ext rfl (if_neg hroot))
  · rfl

theorem entries_attachShadow {node : Nat} {mode : ShadowMode} {root : Nat} {next : Store}
    (hnext : store.attachShadow node mode = (.ok root, next)) :
    next.entries = store.entries ++ [(.shadowRoot mode, some node)] := by
  obtain ⟨-, -, -, hnode⟩ := of_attachShadow_eq_ok hnext
  rw [eq_concat_iff]
  intro other
  rw [getElem?_entries, hnode, getElem?_entries, length_entries]
  split
  · rfl
  · rw [Option.map_map]
    rfl

theorem Consistent.getElem?_entries_append (hconsistent : store.Consistent) {parent child : Nat}
    {next : Store} (hnext : store.append parent child = (.ok (), next)) (node : Nat) :
    next.entries[node]? = store.entries[node]?.map fun entry =>
      if node = child then (entry.1, some parent) else entry := by
  obtain ⟨-, -, hchild, rfl⟩ := of_append_eq_ok hnext
  rw [getElem?_entries, hconsistent.node?_detach_attach, getElem?_entries, Option.map_map,
    Option.map_map]
  cases hstored : store.node? node with
  | none => rfl
  | some stored =>
      rw [Option.map_some, Option.map_some, Function.comp_apply, Function.comp_apply]
      split
      · rename_i hnode
        rw [hnode] at hstored
        have hkind : stored.content.nodeType ≠ .shadowRoot := by
          rwa [nodeType, hstored] at hchild
        rw [StoredNode.entry, StoredNode.entry, if_neg hkind]
      · rfl

/-! ## New nodes -/

/-- A store with one node more, which stands alone. -/
structure AddsLone (store next : Store) (content : Content) : Prop where
  intact : next.Intact
  entries : next.entries = store.entries ++ [(content, none)]
  children : ∀ node, next.children node = store.children node
  shadowRoot : ∀ node, next.shadowRoot node = store.shadowRoot node

theorem Intact.addsLone_create (hintact : store.Intact) {content : Content}
    (hroot : content.nodeType ≠ .shadowRoot)
    (hwell : ∀ element, content = .element element → element.WellFormed) :
    store.AddsLone (store.create content).2 content where
  intact := hintact.create hroot hwell
  entries := entries_create content hroot
  children := children_create
  shadowRoot := shadowRoot_create

/-- A new element takes any attribute. -/
theorem AddsLone.exists_setAttribute {made : Store} {element : Element}
    (hmade : store.AddsLone made (.element element)) (name value : String) :
    ∃ next, made.setAttribute store.size name value = (.ok (), next) ∧
      store.AddsLone next (.element { element with
        attributes := setPair (Text.lowered name) value element.attributes }) := by
  have hentries := eq_concat_iff.mp hmade.entries
  have hlast := hentries store.size
  rw [length_entries, if_pos rfl, getElem?_entries, Option.map_eq_some_iff] at hlast
  obtain ⟨stored, hstored, hentry⟩ := hlast
  have hcontent : stored.content = .element element := congrArg Prod.fst hentry
  have helement : made.element? store.size = some element := by
    rw [element?_eq_bind, hstored, Option.bind_some, hcontent]
    rfl
  obtain ⟨next, hnext⟩ : ∃ next, made.setAttribute store.size name value = (.ok (), next) := by
    rw [Store.setAttribute, helement]
    exact ⟨_, rfl⟩
  refine ⟨next, hnext, hmade.intact.setAttribute hnext, ?_, ?_, ?_⟩
  · rw [eq_concat_iff]
    intro node
    obtain ⟨found, hfound, rfl⟩ := of_setAttribute_eq_ok hnext
    obtain rfl : element = found := Option.some.inj (helement.symm.trans hfound)
    rw [getElem?_entries, node?_update, length_entries]
    split
    · rename_i hnode
      have hparent : (StoredNode.entry stored).2 = none := congrArg Prod.snd hentry
      rw [StoredNode.entry, hcontent] at hparent
      rw [hnode, hstored]
      exact congrArg some (Prod.ext rfl hparent)
    · rename_i hnode
      rw [← getElem?_entries, hentries, length_entries, if_neg hnode]
  · intro node
    rw [children_setAttribute hnext, hmade.children]
  · intro node
    rw [shadowRoot_setAttribute hnext, hmade.shadowRoot]

/-- An intact store in which children stand in the order of their creation. -/
structure Grown (store : Store) : Prop extends Intact store where
  pairwise_children : ∀ node, (store.children node).Pairwise (· < ·)

/-- The node can have children. -/
structure CanHold (store : Store) (node : Nat) : Prop where
  lt_size : node < store.size
  not_text : store.nodeType node ≠ .text
  not_comment : store.nodeType node ≠ .comment

section AddsLone

variable {made : Store} {content : Content} (hmade : store.AddsLone made content)

include hmade

theorem AddsLone.size : made.size = store.size + 1 := by
  rw [← length_entries, hmade.entries, List.length_append, length_entries]
  rfl

theorem AddsLone.getElem?_entries (node : Nat) :
    made.entries[node]? = if node = store.size then some (content, none) else store.entries[node]? := by
  rw [eq_concat_iff.mp hmade.entries, length_entries]

/-- Nothing is in the way of appending the new node. -/
theorem AddsLone.exists_append (hroot : content.nodeType ≠ .shadowRoot) {parent : Nat}
    (hparent : store.CanHold parent) : ∃ next, made.append parent store.size = (.ok (), next) := by
  have hne : parent ≠ store.size := Nat.ne_of_lt hparent.lt_size
  have hkind : made.nodeType parent = store.nodeType parent := by
    rw [nodeType_eq_of_entries, hmade.getElem?_entries, if_neg hne, ← nodeType_eq_of_entries]
  have hchild : made.nodeType store.size ≠ .shadowRoot := by
    rwa [nodeType_eq_of_entries, hmade.getElem?_entries, if_pos rfl]
  have hbelow : store.size ∉ made.ancestors parent := by
    rw [hmade.intact.mem_ancestors_iff]
    intro hpath
    obtain ⟨last, -, hstep⟩ := TransGen.tail'_iff.mp hpath
    have hmem := (hmade.intact.mem_children_iff store.size last).mpr hstep
    rw [hmade.children, children_eq_nil_of_node? (node?_size store)] at hmem
    contradiction
  refine ⟨_, append_eq_ok_iff.mpr ⟨?_, ?_, ⟨?_, ?_⟩, hchild, hne, hbelow, rfl⟩⟩
  · rw [hmade.size]
    exact Nat.lt_succ_of_lt hparent.lt_size
  · rw [hmade.size]
    exact Nat.lt_succ_self store.size
  · rw [hkind]
    exact hparent.not_text
  · rw [hkind]
    exact hparent.not_comment

theorem AddsLone.entries_append {parent : Nat} {next : Store}
    (hnext : made.append parent store.size = (.ok (), next)) :
    next.entries = store.entries ++ [(content, some parent)] := by
  rw [eq_concat_iff]
  intro node
  rw [hmade.intact.getElem?_entries_append hnext, hmade.getElem?_entries, length_entries]
  split
  · rfl
  · exact Option.map_id'

/-- The new node is the youngest child of its parent. -/
theorem AddsLone.grown_append (hgrown : store.Grown) {parent : Nat} {next : Store}
    (hnext : made.append parent store.size = (.ok (), next)) : next.Grown where
  toIntact := hmade.intact.append hnext
  pairwise_children := by
    intro node
    rw [hmade.intact.children_append hnext, hmade.children, List.pairwise_append]
    refine ⟨(hgrown.pairwise_children node).sublist List.erase_sublist, ?_, ?_⟩
    · split
      · exact List.pairwise_singleton _ _
      · exact List.Pairwise.nil
    · intro other hother last hlast
      have hmem := (hgrown.mem_children_iff node other).mp (List.mem_of_mem_erase hother)
      split at hlast
      · rw [List.mem_singleton.mp hlast]
        exact (hgrown.lt_size_of_parent hmem).1
      · contradiction

theorem AddsLone.shadowRoot_append {parent : Nat} {next : Store}
    (hnext : made.append parent store.size = (.ok (), next)) (node : Nat) :
    next.shadowRoot node = store.shadowRoot node := by
  rw [hmade.intact.shadowRoot_append hnext, hmade.shadowRoot]

end AddsLone

theorem Grown.exists_attachShadow (hgrown : store.Grown) {node : Nat}
    (htype : store.nodeType node = .element) (hhosts : store.shadowRoot node = none)
    (mode : ShadowMode) :
    ∃ next, store.attachShadow node mode = (.ok store.size, next) ∧ next.Grown ∧
      next.entries = store.entries ++ [(.shadowRoot mode, some node)] := by
  obtain ⟨next, hnext⟩ : ∃ next, store.attachShadow node mode = (.ok store.size, next) := by
    rw [Store.attachShadow, if_neg (not_not_intro htype), hhosts, Option.isSome_none,
      if_neg Bool.false_ne_true]
    exact ⟨_, rfl⟩
  refine ⟨next, hnext, ⟨hgrown.toIntact.attachShadow hnext, ?_⟩, entries_attachShadow hnext⟩
  intro other
  rw [children_attachShadow hnext]
  exact hgrown.pairwise_children other

/-! ## The nodes of the document -/

/-- Every node but the document hangs on an older one. -/
def Descends (store : Store) : Prop :=
  ∀ node, 0 < node → node < store.size → ∃ older, store.above node = some older ∧ older < node

theorem Descends.acyclic (hdescends : store.Descends) (hconsistent : store.Consistent)
    (hdocument : store.above 0 = none) : store.Acyclic := by
  have hstep {node next : Nat} (habove : Leads store.above node next) : next < node := by
    have hpos : 0 < node := by
      rw [Nat.pos_iff_ne_zero]
      rintro rfl
      rw [Leads, hdocument] at habove
      contradiction
    obtain ⟨older, holder, hlt⟩ := hdescends node hpos (hconsistent.lt_size_of_above habove).1
    rw [Leads, holder] at habove
    cases habove
    exact hlt
  have hpath {node last : Nat} (hpath : TransGen (Leads store.above) node last) : last < node := by
    induction hpath with
    | single hlast => exact hstep hlast
    | tail _ hlast ih => exact Nat.lt_trans (hstep hlast) ih
  intro node hcycle
  exact Nat.lt_irrefl node (hpath hcycle)

theorem Descends.path (hdescends : store.Descends) {node : Nat} (hnode : node < store.size) :
    ReflTransGen (Leads store.above) node 0 := by
  induction node using Nat.strongRecOn with
  | ind node ih =>
      rcases Nat.eq_zero_or_pos node with rfl | hpos
      · exact .refl
      · obtain ⟨older, holder, hlt⟩ := hdescends node hpos hnode
        exact .head holder (ih older hlt (Nat.lt_trans hlt hnode))

/-- All nodes are below the document, each in one place. -/
theorem Descends.count_shadowIncluding (hdescends : store.Descends) (hconsistent : store.Consistent)
    (hdocument : store.above 0 = none) {node : Nat} (hnode : node < store.size) :
    (store.shadowIncluding 0).count node = 1 := by
  have hacyclic := hdescends.acyclic hconsistent hdocument
  apply List.count_eq_one_of_mem (hconsistent.nodup_shadowIncluding hacyclic 0)
  exact (hconsistent.mem_shadowIncluding_iff hacyclic).mpr (hdescends.path hnode)

end Store

end FlatTree
