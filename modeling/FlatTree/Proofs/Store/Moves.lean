import FlatTree.Proofs.Store.TreeOrder

/-!
# Moves of subtrees

An append takes the child out of the list of its old parent and puts it at the end of the list of its new
one.  No other list of children changes, no other node has another parent, and contents, hosts and shadow
roots stay, so that the child takes everything below it along.  An append of what is the last child
already changes nothing, and neither does an edit that fails.
-/

namespace FlatTree.Store

open Relation

variable {store : Store}

/-- A move of the child below the parent changes the list of children of the node. -/
def ListTouched (store : Store) (parent child node : Nat) : Prop :=
  node = parent ∨ store.parent child = some node

/-- The child has become the last one of the parent, and all else is as it was. -/
structure Moved (store next : Store) (parent child : Nat) : Prop where
  size : next.size = store.size
  content : ∀ node,
    (next.node? node).map StoredNode.content = (store.node? node).map StoredNode.content
  shadowRoot : ∀ node, next.shadowRoot node = store.shadowRoot node
  host : ∀ node, next.host node = store.host node
  parent_child : next.parent child = some parent
  parent_other : ∀ node, node ≠ child → next.parent node = store.parent node
  children_parent : next.children parent = (store.children parent).filter (· ≠ child) ++ [child]
  children_before : ∀ before, store.parent child = some before → before ≠ parent →
    next.children before = (store.children before).filter (· ≠ child)
  children_other : ∀ node, ¬ store.ListTouched parent child node →
    next.children node = store.children node
  node_other : ∀ node, node ≠ child → ¬ store.ListTouched parent child node →
    next.node? node = store.node? node
  node_below : ∀ node, TransGen (Leads store.parent) node child → next.node? node = store.node? node
  descendants : next.descendants child = store.descendants child
  /-- Shadow trees below the child come along too, unless it is moved into or out of one of them. -/
  shadowIncluding : (∀ node, ReflTransGen (Leads store.above) node child →
    ¬ store.ListTouched parent child node) → next.shadowIncluding child = store.shadowIncluding child
  not_touched_shown : store.Acyclic → next.Acyclic → ∀ node,
    ReflTransGen (Leads store.above) node child → ¬ store.ListTouched parent child node

/-! ## When an append goes through -/

/-- Only text and comments have no children. -/
theorem nodeType_holdsChildren_iff (kind : NodeType) :
    kind ≠ .text ∧ kind ≠ .comment ↔ kind = .document ∨ kind = .element ∨ kind = .shadowRoot := by
  cases kind <;> decide

theorem Intact.exists_append_iff (hintact : store.Intact) (parent child : Nat) :
    (∃ next, store.append parent child = (.ok (), next)) ↔
      (parent < store.size ∧ child < store.size) ∧
        (store.nodeType parent = .document ∨ store.nodeType parent = .element ∨
          store.nodeType parent = .shadowRoot) ∧
        store.nodeType child ≠ .shadowRoot ∧ child ≠ parent ∧
        ¬ TransGen (Leads store.parent) parent child := by
  rw [← nodeType_holdsChildren_iff, ← hintact.mem_ancestors_iff]
  constructor
  · rintro ⟨next, hnext⟩
    obtain ⟨hparent, hchild, hkind, hroot, hself, hbelow, -⟩ := append_eq_ok_iff.mp hnext
    exact ⟨⟨hparent, hchild⟩, hkind, hroot, hself.symm, hbelow⟩
  · rintro ⟨⟨hparent, hchild⟩, hkind, hroot, hself, hbelow⟩
    exact ⟨_, append_eq_ok_iff.mpr ⟨hparent, hchild, hkind, hroot, hself.symm, hbelow, rfl⟩⟩

/-! ## What an append changes -/

section Append

variable {parent child : Nat} {next : Store} (hnext : store.append parent child = (.ok (), next))

theorem Consistent.erase_children_eq_filter (hconsistent : store.Consistent) (node child : Nat) :
    (store.children node).erase child = (store.children node).filter (· ≠ child) := by
  rw [(hconsistent.nodup_children node).erase_eq_filter]
  apply List.filter_congr
  intro other _
  exact (decide_not ..).symm

include hnext

theorem Consistent.children_append_of_not_touched (hconsistent : store.Consistent) {node : Nat}
    (hclear : ¬ store.ListTouched parent child node) : next.children node = store.children node := by
  rw [ListTouched, not_or] at hclear
  have hmem : child ∉ store.children node := by
    rw [hconsistent.mem_children_iff]
    exact hclear.2
  rw [hconsistent.children_append hnext, if_neg hclear.1, List.append_nil, List.erase_of_not_mem hmem]

theorem Consistent.node?_append_of_not_touched (hconsistent : store.Consistent) {node : Nat}
    (hnode : node ≠ child) (hclear : ¬ store.ListTouched parent child node) :
    next.node? node = store.node? node := by
  rw [ListTouched, not_or] at hclear
  obtain ⟨-, -, -, rfl⟩ := of_append_eq_ok hnext
  rw [hconsistent.node?_detach_attach]
  cases hstored : store.node? node with
  | none => rfl
  | some stored =>
      rw [Option.map_some, if_neg hnode, if_neg hclear.1, List.append_nil,
        hconsistent.erase_children hclear.2 hstored]

/-! ## What the child takes along -/

/-- Neither the old parent nor the new one is the child or below it. -/
theorem Intact.not_listTouched_of_path (hintact : store.Intact) {node : Nat}
    (hpath : ReflTransGen (Leads store.parent) node child) :
    ¬ store.ListTouched parent child node := by
  rintro (rfl | hbefore)
  · exact hintact.not_path_of_append hnext hpath
  · exact hintact.acyclic_parent child (.head' hbefore hpath)

/-- In acyclic stores neither of the two is in a shadow tree below the child. -/
theorem Consistent.not_listTouched_of_above (hconsistent : store.Consistent)
    (hacyclic : store.Acyclic) (hafter : next.Acyclic) {node : Nat}
    (hpath : ReflTransGen (Leads store.above) node child) :
    ¬ store.ListTouched parent child node := by
  rintro (rfl | hbefore)
  · exact (hconsistent.acyclic_append_iff hacyclic hnext).mp hafter hpath
  · exact hacyclic child (.head' (hconsistent.above_of_parent hbefore) hpath)

theorem Consistent.descendants_append (hconsistent : store.Consistent) {top : Nat}
    (hclear : ∀ node, ReflTransGen (Leads store.parent) node top →
      ¬ store.ListTouched parent child node) : next.descendants top = store.descendants top := by
  rw [descendants, descendants, size_append hnext, listTree_eq_preorder, listTree_eq_preorder]
  apply preorder_congr
  intro node hpath
  have htop := (FlatTree.below_path_iff hconsistent.mem_children_iff).mp hpath
  exact hconsistent.children_append_of_not_touched hnext (hclear node htop)

theorem Consistent.shadowIncluding_append (hconsistent : store.Consistent) {top : Nat}
    (hclear : ∀ node, ReflTransGen (Leads store.above) node top →
      ¬ store.ListTouched parent child node) :
    next.shadowIncluding top = store.shadowIncluding top := by
  rw [Store.shadowIncluding, Store.shadowIncluding, size_append hnext, listIncluding_eq_preorder,
    listIncluding_eq_preorder]
  apply preorder_congr
  intro node hpath
  have htop := hconsistent.below_path_iff.mp hpath
  rw [shownBelow, shownBelow, hconsistent.shadowRoot_append hnext,
    hconsistent.children_append_of_not_touched hnext (hclear node htop)]

theorem Intact.moved_append (hintact : store.Intact) : store.Moved next parent child where
  size := size_append hnext
  content := hintact.content_append hnext
  shadowRoot := hintact.shadowRoot_append hnext
  host := hintact.host_append hnext
  parent_child := by
    rw [hintact.parent_append hnext, if_pos rfl]
  parent_other := by
    intro node hnode
    rw [hintact.parent_append hnext, if_neg hnode]
  children_parent := by
    rw [hintact.children_append hnext, if_pos rfl, hintact.erase_children_eq_filter]
  children_before := by
    intro before _ hbefore
    rw [hintact.children_append hnext, if_neg hbefore, List.append_nil,
      hintact.erase_children_eq_filter]
  children_other := fun _ => hintact.children_append_of_not_touched hnext
  node_other := fun _ => hintact.node?_append_of_not_touched hnext
  node_below := by
    intro node hpath
    have hnode : node ≠ child := by
      rintro rfl
      exact hintact.acyclic_parent node hpath
    exact hintact.node?_append_of_not_touched hnext hnode
      (hintact.not_listTouched_of_path hnext hpath.to_reflTransGen)
  descendants := hintact.descendants_append hnext fun _ => hintact.not_listTouched_of_path hnext
  shadowIncluding := hintact.shadowIncluding_append hnext
  not_touched_shown := fun hacyclic hafter _ => hintact.not_listTouched_of_above hnext hacyclic hafter

end Append

/-! ## Edits that change nothing -/

/-- The last child is taken out of the list and put back where it was. -/
theorem Consistent.attach_detach_of_getLast? (hconsistent : store.Consistent) {parent child : Nat}
    (hlast : (store.children parent).getLast? = some child) :
    (store.detach child).attach parent child = store := by
  have hparent := (hconsistent.mem_children_iff parent child).mp (List.mem_of_getLast? hlast)
  obtain ⟨front, hfront⟩ := List.getLast?_eq_some_iff.mp hlast
  have hnot : child ∉ front := by
    have hnodup := hconsistent.nodup_children parent
    rw [hfront, List.nodup_append_comm] at hnodup
    exact (List.nodup_cons.mp hnodup).1
  apply ext_node?
  intro node
  rw [hconsistent.node?_detach_attach]
  cases hstored : store.node? node with
  | none => rfl
  | some stored =>
      have hparents : (if node = child then some parent else stored.parent) = stored.parent := by
        split
        · rename_i hnode
          rw [← hparent, Store.parent, ← hnode, hstored, Option.bind_some]
        · rfl
      have hchildren : stored.children.erase child ++ (if node = parent then [child] else []) =
          stored.children := by
        split
        · rename_i hnode
          have hlist : stored.children = front ++ [child] := by
            rw [← hfront, ← hnode, children, hstored, Option.map_some, Option.getD_some]
          rw [hlist, List.erase_append_right [child] hnot, List.erase_cons_head, List.append_nil]
        · rename_i hnode
          have hother : store.parent child ≠ some node := by
            rw [hparent]
            exact fun hsame => hnode (Option.some.inj hsame).symm
          rw [hconsistent.erase_children hother hstored, List.append_nil]
      rw [Option.map_some, hparents, hchildren]

theorem Intact.append_getLast? (hintact : store.Intact) {parent child : Nat}
    (hlast : (store.children parent).getLast? = some child) :
    store.append parent child = (.ok (), store) := by
  have hmem : child ∈ store.children parent := List.mem_of_getLast? hlast
  have hparent := (hintact.mem_children_iff parent child).mp hmem
  obtain ⟨hchildSize, hparentSize⟩ := hintact.lt_size_of_parent hparent
  refine append_eq_ok_iff.mpr ⟨hparentSize, hchildSize, ⟨?_, ?_⟩, ?_, ?_, ?_,
    hintact.attach_detach_of_getLast? hlast⟩
  · intro hkind
    rw [hintact.children_eq_nil parent (.inl hkind)] at hmem
    contradiction
  · intro hkind
    rw [hintact.children_eq_nil parent (.inr hkind)] at hmem
    contradiction
  · intro hroot
    rw [hintact.parent_eq_none child hroot] at hparent
    contradiction
  · rintro rfl
    exact hintact.acyclic_parent parent (.single hparent)
  · intro habove
    exact hintact.acyclic_parent child (.head hparent (hintact.mem_ancestors_iff.mp habove))

theorem setAttribute_fails_iff (node : Nat) (name value : String) :
    (∃ fault, (store.setAttribute node name value).1 = .error fault) ↔
      store.nodeType node ≠ .element := by
  have hkind := isSome_element? store node
  rw [setAttribute]
  cases helement : store.element? node with
  | none =>
      rw [helement, Option.isSome_none] at hkind
      exact iff_of_true ⟨_, rfl⟩ (of_decide_eq_false hkind.symm)
  | some element =>
      rw [helement, Option.isSome_some] at hkind
      refine iff_of_false ?_ (not_not_intro (of_decide_eq_true hkind.symm))
      rintro ⟨fault, hfails⟩
      cases hfails

theorem attachShadow_fails_iff (node : Nat) (mode : ShadowMode) :
    (∃ fault, (store.attachShadow node mode).1 = .error fault) ↔
      store.nodeType node ≠ .element ∨ store.shadowRoot node ≠ none := by
  rw [attachShadow]
  split
  · rename_i hkind
    exact iff_of_true ⟨_, rfl⟩ (.inl hkind)
  · rename_i hkind
    rw [← Option.isSome_iff_ne_none]
    split
    · rename_i hhosts
      exact iff_of_true ⟨_, rfl⟩ (.inr hhosts)
    · rename_i hhosts
      refine iff_of_false ?_ (not_or_intro hkind hhosts)
      rintro ⟨fault, hfails⟩
      cases hfails

/-- In every store that edits make an append goes through exactly if the parent is a document, an element or
a shadow root, and the child is neither a shadow root nor the parent nor one of its ancestors.  Then the
child is moved, with all that is below it, and nothing else changes.  To append the last child once more
leaves the store as it is, and so does every edit that fails; setting an attribute fails exactly where there
is no element, and hanging a shadow root exactly where there is none or one that hosts a shadow root. -/
theorem append_moves_one_subtree (edits : List Edit) (parent child : Nat) :
    let store := ofEdits edits
    ((∃ next, store.append parent child = (.ok (), next)) ↔
      (parent < store.size ∧ child < store.size) ∧
        (store.nodeType parent = .document ∨ store.nodeType parent = .element ∨
          store.nodeType parent = .shadowRoot) ∧
        store.nodeType child ≠ .shadowRoot ∧ child ≠ parent ∧
        ¬ TransGen (Leads store.parent) parent child) ∧
    (∀ next, store.append parent child = (.ok (), next) → store.Moved next parent child) ∧
    ((store.children parent).getLast? = some child → store.append parent child = (.ok (), store)) ∧
    (∀ node name value,
      (∃ fault, (store.setAttribute node name value).1 = .error fault) ↔
        store.nodeType node ≠ .element) ∧
    (∀ node mode, (∃ fault, (store.attachShadow node mode).1 = .error fault) ↔
      store.nodeType node ≠ .element ∨ store.shadowRoot node ≠ none) ∧
    ∀ edit fault left, store.apply edit = (.error fault, left) →
      left = store ∧ ofEdits (edits ++ [edit]) = store := by
  intro store
  have hintact : store.Intact := intact_ofEdits edits
  refine ⟨hintact.exists_append_iff parent child, fun _ hnext => hintact.moved_append hnext,
    hintact.append_getLast?, setAttribute_fails_iff, attachShadow_fails_iff, ?_⟩
  intro edit fault left hfails
  have hleft : left = store := eq_of_apply_eq_error hfails
  refine ⟨hleft, ?_⟩
  rw [ofEdits_concat, hfails, hleft]

/-- Node 1 has the children 2, 3 and 7, of which node 3 hosts the shadow root 4 above the slot 5 and has the
child 6.  Node 8 has the child 9. -/
def hostBetween : List Edit :=
  [.createElement (some htmlNamespace) "div", .append 0 1,
    .createText "before", .append 1 2,
    .createElement (some htmlNamespace) "main", .append 1 3, .attachShadow 3 .opened,
    .createElement (some htmlNamespace) "slot", .append 4 5,
    .createElement (some htmlNamespace) "span", .append 3 6,
    .createText "behind", .append 1 7,
    .createElement (some htmlNamespace) "section", .append 0 8,
    .createComment "first", .append 8 9]

/-- The host is moved from between two other children, with its child and its shadow tree.  The parent is
not moved below it, and the last child is where it was. -/
theorem append_moves_one_subtree_hostBetween :
    (∃ next, (ofEdits hostBetween).append 8 3 = (.ok (), next) ∧
      next.children 1 = [2, 7] ∧ next.children 8 = [9, 3] ∧ next.children 3 = [6] ∧
      (ofEdits hostBetween).Acyclic ∧ next.Acyclic ∧ next.shadowIncluding 3 = [3, 4, 5, 6]) ∧
    (¬ ∃ next, (ofEdits hostBetween).append 6 1 = (.ok (), next)) ∧
    (ofEdits hostBetween).append 8 9 = (.ok (), ofEdits hostBetween) := by
  have hintact := intact_ofEdits hostBetween
  have hclear : ¬ TransGen (Leads (ofEdits hostBetween).parent) 8 3 :=
    hintact.mem_ancestors_iff.not.mp (by decide +kernel)
  obtain ⟨hgoes, hmoved, -⟩ := append_moves_one_subtree hostBetween 8 3
  obtain ⟨next, hnext⟩ := hgoes.mpr
    ⟨by decide +kernel, by decide +kernel, by decide +kernel, by decide, hclear⟩
  have hmoved := hmoved next hnext
  have hacyclic : (ofEdits hostBetween).Acyclic := hintact.acyclic_of_iterate (by decide +kernel)
  have hafter : next.Acyclic := by
    obtain ⟨-, -, -, rfl⟩ := of_append_eq_ok hnext
    exact (hintact.append hnext).acyclic_of_iterate (by decide +kernel)
  refine ⟨⟨next, hnext, ?_, ?_, ?_, hacyclic, hafter, ?_⟩, ?_, ?_⟩
  · rw [hmoved.children_before 1 (by decide +kernel) (by decide)]
    decide +kernel
  · rw [hmoved.children_parent]
    decide +kernel
  · rw [hmoved.children_other 3 (not_or_intro (by decide) (by decide +kernel))]
    decide +kernel
  · rw [hmoved.shadowIncluding (hmoved.not_touched_shown hacyclic hafter)]
    decide +kernel
  · rw [(append_moves_one_subtree hostBetween 6 1).1]
    rintro ⟨-, -, -, -, hbelow⟩
    have hspan : (ofEdits hostBetween).parent 6 = some 3 := by decide +kernel
    have hhost : (ofEdits hostBetween).parent 3 = some 1 := by decide +kernel
    exact hbelow (.head hspan (.single hhost))
  · exact (append_moves_one_subtree hostBetween 8 9).2.2.1 (by decide +kernel)

end FlatTree.Store
