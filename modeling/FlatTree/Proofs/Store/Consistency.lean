import FlatTree.Proofs.Store.Edits
import Mathlib.Data.List.Induction
import Mathlib.Data.List.Nodup

/-!
# Consistency of stores

The links of a store agree with each other: children name their parent, once, hosts and shadow roots name
each other, and a shadow root stands at the top of its tree.  The new store is consistent and every edit
keeps a store so, hence every store that edits make is consistent.
-/

namespace FlatTree.Store

/-- The links between nodes agree with each other. -/
structure Consistent (store : Store) : Prop where
  nodeType_document : store.nodeType 0 = .document
  size_pos : 0 < store.size
  mem_children_iff : ∀ parent node, node ∈ store.children parent ↔ store.parent node = some parent
  nodup_children : ∀ parent, (store.children parent).Nodup
  shadowRoot_iff : ∀ host root, store.shadowRoot host = some root ↔ store.host root = some host
  nodeType_iff : ∀ root, store.nodeType root = .shadowRoot ↔ ∃ host, store.host root = some host
  parent_eq_none : ∀ root, store.nodeType root = .shadowRoot → store.parent root = none
  shadowRoot_eq_none : ∀ root, store.nodeType root = .shadowRoot → store.shadowRoot root = none

/-! ## Links after an append -/

section Append

variable {store : Store} (hconsistent : store.Consistent)

include hconsistent

theorem Consistent.lt_size_of_parent {node parent : Nat} (hparent : store.parent node = some parent) :
    node < store.size ∧ parent < store.size := by
  constructor
  · obtain ⟨stored, hstored, -⟩ := Option.bind_eq_some_iff.mp hparent
    exact lt_size_of_node? hstored
  · have hmem := (hconsistent.mem_children_iff parent node).mpr hparent
    cases hstored : store.node? parent with
    | none => simp [children, hstored] at hmem
    | some stored => exact lt_size_of_node? hstored

/-- Taking a node away from its parent takes it out of all lists of children. -/
theorem Consistent.erase_children {child other : Nat} (hparent : store.parent child ≠ some other)
    {stored : StoredNode} (hstored : store.node? other = some stored) :
    stored.children.erase child = stored.children := by
  apply List.erase_of_not_mem
  intro hmem
  apply hparent
  rw [← hconsistent.mem_children_iff, children, hstored]
  exact hmem

theorem Consistent.node?_detach_attach (parent child other : Nat) :
    ((store.detach child).attach parent child).node? other =
      (store.node? other).map fun stored =>
        { stored with
          parent := if other = child then some parent else stored.parent
          children := stored.children.erase child ++ if other = parent then [child] else [] } := by
  rw [node?_attach]
  cases habove : store.parent child with
  | none =>
      rw [detach, habove]
      cases hstored : store.node? other with
      | none => rfl
      | some stored =>
          have hnone : store.parent child ≠ some other := by simp [habove]
          have herase := hconsistent.erase_children hnone hstored
          simp only [Option.map_some, herase]
          split <;> split <;> simp
  | some above =>
      rw [node?_detach store habove]
      cases hstored : store.node? other with
      | none => rfl
      | some stored =>
          by_cases hother : other = above
          · simp only [Option.map_some, hother, if_true]
            split <;> split <;> simp
          · have herase := hconsistent.erase_children (by rw [habove]; simp [Ne.symm hother]) hstored
            simp only [Option.map_some, herase, if_neg hother]
            split <;> split <;> simp

theorem Consistent.parent_append {parent child : Nat} {next : Store}
    (hnext : store.append parent child = (.ok (), next)) (other : Nat) :
    next.parent other = if other = child then some parent else store.parent other := by
  obtain ⟨-, hchild, -, rfl⟩ := of_append_eq_ok hnext
  rw [Store.parent, hconsistent.node?_detach_attach, Option.bind_map]
  by_cases hother : other = child
  · obtain ⟨stored, hstored⟩ := exists_node? hchild
    rw [hother, hstored]
    simp
  · simp only [hother, if_false]
    rfl

theorem Consistent.children_append {parent child : Nat} {next : Store}
    (hnext : store.append parent child = (.ok (), next)) (other : Nat) :
    next.children other =
      (store.children other).erase child ++ if other = parent then [child] else [] := by
  obtain ⟨hparent, -, -, rfl⟩ := of_append_eq_ok hnext
  rw [children, hconsistent.node?_detach_attach, children]
  cases hstored : store.node? other with
  | some stored => rfl
  | none =>
      have hother : other ≠ parent := by
        rintro rfl
        obtain ⟨stored, hsome⟩ := exists_node? hparent
        rw [hstored] at hsome
        contradiction
      rw [if_neg hother]
      rfl

theorem Consistent.content_append {parent child : Nat} {next : Store}
    (hnext : store.append parent child = (.ok (), next)) (other : Nat) :
    (next.node? other).map StoredNode.content = (store.node? other).map StoredNode.content := by
  obtain ⟨-, -, -, rfl⟩ := of_append_eq_ok hnext
  rw [hconsistent.node?_detach_attach, Option.map_map]
  rfl

theorem Consistent.nodeType_append {parent child : Nat} {next : Store}
    (hnext : store.append parent child = (.ok (), next)) (other : Nat) :
    next.nodeType other = store.nodeType other := by
  obtain ⟨-, -, -, rfl⟩ := of_append_eq_ok hnext
  rw [nodeType, hconsistent.node?_detach_attach, Option.map_map]
  rfl

theorem Consistent.shadowRoot_append {parent child : Nat} {next : Store}
    (hnext : store.append parent child = (.ok (), next)) (other : Nat) :
    next.shadowRoot other = store.shadowRoot other := by
  obtain ⟨-, -, -, rfl⟩ := of_append_eq_ok hnext
  rw [shadowRoot, hconsistent.node?_detach_attach, Option.bind_map]
  rfl

theorem Consistent.host_append {parent child : Nat} {next : Store}
    (hnext : store.append parent child = (.ok (), next)) (other : Nat) :
    next.host other = store.host other := by
  obtain ⟨-, -, -, rfl⟩ := of_append_eq_ok hnext
  rw [host, hconsistent.node?_detach_attach, Option.bind_map]
  rfl

theorem Consistent.append {parent child : Nat} {next : Store}
    (hnext : store.append parent child = (.ok (), next)) : next.Consistent := by
  have hparents := hconsistent.parent_append hnext
  have hchildren := hconsistent.children_append hnext
  have htype := hconsistent.nodeType_append hnext
  have hshadow := hconsistent.shadowRoot_append hnext
  have hhost := hconsistent.host_append hnext
  obtain ⟨-, -, hroot, rfl⟩ := of_append_eq_ok hnext
  have hnot (other : Nat) : child ∉ (store.children other).erase child :=
    (hconsistent.nodup_children other).not_mem_erase
  exact {
    nodeType_document := by
      rw [htype]
      exact hconsistent.nodeType_document
    size_pos := by
      rw [size_detach_attach]
      exact hconsistent.size_pos
    mem_children_iff := by
      intro above node
      rw [hparents, hchildren, List.mem_append]
      by_cases hnode : node = child
      · by_cases habove : above = parent
        · simp [hnode, habove]
        · simp [hnode, habove, hnot, Ne.symm habove]
      · rw [List.mem_erase_of_ne hnode, if_neg hnode, hconsistent.mem_children_iff]
        by_cases habove : above = parent
        · simp [hnode, habove]
        · simp [habove]
    nodup_children := by
      intro above
      rw [hchildren, List.nodup_append]
      refine ⟨(hconsistent.nodup_children above).erase child, ?_, ?_⟩
      · split <;> simp
      · rintro node hnode other hother rfl
        split at hother
        · rw [List.mem_singleton.mp hother] at hnode
          exact hnot above hnode
        · contradiction
    shadowRoot_iff := by
      intro above root
      rw [hshadow, hhost]
      exact hconsistent.shadowRoot_iff above root
    nodeType_iff := by
      intro root
      simp only [htype, hhost]
      exact hconsistent.nodeType_iff root
    parent_eq_none := by
      intro root htop
      rw [htype] at htop
      have hchild : root ≠ child := by
        rintro rfl
        exact hroot htop
      rw [hparents, if_neg hchild]
      exact hconsistent.parent_eq_none root htop
    shadowRoot_eq_none := by
      intro root htop
      rw [htype] at htop
      rw [hshadow]
      exact hconsistent.shadowRoot_eq_none root htop }

end Append

/-! ## Links after the other edits -/

section Edits

variable {store : Store} (hconsistent : store.Consistent)

include hconsistent

/-- Where no link changes, and no node becomes a shadow root or stops being one. -/
theorem Consistent.of_same_links {next : Store} (hdocument : next.nodeType 0 = .document)
    (hsize : store.size ≤ next.size) (hparent : ∀ node, next.parent node = store.parent node)
    (hchildren : ∀ node, next.children node = store.children node)
    (hshadow : ∀ node, next.shadowRoot node = store.shadowRoot node)
    (hhost : ∀ node, next.host node = store.host node)
    (htype : ∀ node, next.nodeType node = .shadowRoot ↔ store.nodeType node = .shadowRoot) :
    next.Consistent where
  nodeType_document := hdocument
  size_pos := Nat.lt_of_lt_of_le hconsistent.size_pos hsize
  mem_children_iff := by
    intro above node
    rw [hchildren, hparent]
    exact hconsistent.mem_children_iff above node
  nodup_children := by
    intro above
    rw [hchildren]
    exact hconsistent.nodup_children above
  shadowRoot_iff := by
    intro above root
    rw [hshadow, hhost]
    exact hconsistent.shadowRoot_iff above root
  nodeType_iff := by
    intro root
    simp only [htype, hhost]
    exact hconsistent.nodeType_iff root
  parent_eq_none := by
    intro root hroot
    rw [hparent]
    exact hconsistent.parent_eq_none root ((htype root).mp hroot)
  shadowRoot_eq_none := by
    intro root hroot
    rw [hshadow]
    exact hconsistent.shadowRoot_eq_none root ((htype root).mp hroot)

/-- A node that stands alone changes no link. -/
theorem Consistent.create {content : Content} (hroot : content.nodeType ≠ .shadowRoot) :
    (store.create content).2.Consistent := by
  apply hconsistent.of_same_links _ _ parent_create children_create shadowRoot_create host_create
  · intro node
    rw [nodeType_create]
    split
    · rename_i hnode
      rw [hnode, nodeType, node?_size]
      exact iff_of_false hroot (by decide)
    · rfl
  · rw [nodeType_create, if_neg (Nat.ne_of_lt hconsistent.size_pos)]
    exact hconsistent.nodeType_document
  · simp [Store.create, size]

theorem Consistent.setAttribute {node : Nat} {name value : String} {next : Store}
    (hnext : store.setAttribute node name value = (.ok (), next)) : next.Consistent := by
  apply hconsistent.of_same_links _ _ (parent_setAttribute hnext) (children_setAttribute hnext)
    (shadowRoot_setAttribute hnext) (host_setAttribute hnext)
  · intro other
    rw [nodeType_setAttribute hnext]
  · exact (nodeType_setAttribute hnext 0).trans hconsistent.nodeType_document
  · obtain ⟨element, -, rfl⟩ := of_setAttribute_eq_ok hnext
    simp [update, size]

theorem Consistent.attachShadow {node : Nat} {mode : ShadowMode} {root : Nat} {next : Store}
    (hnext : store.attachShadow node mode = (.ok root, next)) : next.Consistent := by
  obtain ⟨htype, hhosts, hsize, -⟩ := of_attachShadow_eq_ok hnext
  have hlt : node < store.size := lt_size_of_nodeType (by rw [htype]; nofun)
  have htypes := nodeType_attachShadow hnext
  have hhost := host_attachShadow hnext
  have hshadow := shadowRoot_attachShadow hnext
  have hparent := parent_attachShadow hnext
  have hchildren := children_attachShadow hnext
  have hnone := node?_size store
  have hfresh : store.host store.size = none := by
    rw [host, hnone]
    rfl
  exact {
    nodeType_document := by
      rw [htypes, if_neg (Nat.ne_of_lt hconsistent.size_pos)]
      exact hconsistent.nodeType_document
    size_pos := by
      rw [hsize]
      exact Nat.succ_pos _
    mem_children_iff := by
      intro above other
      rw [hchildren, hparent]
      exact hconsistent.mem_children_iff above other
    nodup_children := by
      intro above
      rw [hchildren]
      exact hconsistent.nodup_children above
    shadowRoot_iff := by
      intro above root
      rw [hshadow, hhost]
      by_cases habove : above = node
      · by_cases hroot : root = store.size
        · simp [habove, hroot]
        · rw [if_pos habove, if_neg hroot, habove, ← hconsistent.shadowRoot_iff, hhosts]
          simp [Ne.symm hroot]
      · by_cases hroot : root = store.size
        · rw [if_neg habove, if_pos hroot, hroot, hconsistent.shadowRoot_iff, hfresh]
          simp [Ne.symm habove]
        · rw [if_neg habove, if_neg hroot]
          exact hconsistent.shadowRoot_iff above root
    nodeType_iff := by
      intro root
      rw [htypes, hhost]
      by_cases hroot : root = store.size
      · simp [hroot]
      · rw [if_neg hroot, if_neg hroot]
        exact hconsistent.nodeType_iff root
    parent_eq_none := by
      intro root htop
      rw [hparent]
      rw [htypes] at htop
      by_cases hroot : root = store.size
      · rw [hroot, parent, hnone]
        rfl
      · rw [if_neg hroot] at htop
        exact hconsistent.parent_eq_none root htop
    shadowRoot_eq_none := by
      intro root htop
      rw [hshadow]
      rw [htypes] at htop
      by_cases hroot : root = store.size
      · rw [if_neg (by rw [hroot]; exact Nat.ne_of_gt hlt), hroot, shadowRoot, hnone]
        rfl
      · rw [if_neg hroot] at htop
        have hnode : root ≠ node := by
          rintro rfl
          rw [htype] at htop
          contradiction
        rw [if_neg hnode]
        exact hconsistent.shadowRoot_eq_none root htop }

theorem Consistent.becomes {edit : Edit} {next : Store} (hnext : store.Becomes edit next) :
    next.Consistent := by
  cases hnext with
  | created hcontent => exact hconsistent.create (nodeType_of_content? hcontent).2
  | appended hdone => exact hconsistent.append hdone
  | attributed hdone => exact hconsistent.setAttribute hdone
  | hosted hdone => exact hconsistent.attachShadow hdone

end Edits

theorem consistent_new : new.Consistent where
  nodeType_document := nodeType_new 0
  size_pos := Nat.zero_lt_one
  mem_children_iff := by simp
  nodup_children := by simp
  shadowRoot_iff := by simp
  nodeType_iff := by simp
  parent_eq_none := by simp
  shadowRoot_eq_none := by simp

theorem consistent_ofEdits (edits : List Edit) : (ofEdits edits).Consistent :=
  ofEdits_induction consistent_new (fun _ _ _ hconsistent hnext => hconsistent.becomes hnext) edits

/-- What holds of the new store, and is taken away by the edits of one kind only, holds as long as all
edits of that kind fail. -/
theorem ofEdits_iff_forall_error (property : Store → Prop) (kind : Edit → Prop) (hnew : property new)
    (hstep : ∀ store : Store, store.Consistent → ∀ edit next, store.Becomes edit next →
      (property next ↔ property store ∧ ¬ kind edit)) (edits : List Edit) :
    property (ofEdits edits) ↔ ∀ front edit, front ++ [edit] <+: edits → kind edit →
      ∃ fault, ((ofEdits front).apply edit).1 = .error fault := by
  induction edits using List.reverseRecOn with
  | nil =>
      refine iff_of_true hnew fun front edit hfront => ?_
      rw [List.prefix_nil] at hfront
      exact absurd hfront (List.append_ne_nil_of_right_ne_nil front (List.cons_ne_nil edit []))
  | append_singleton edits edit ih =>
      have hlast : property (ofEdits (edits ++ [edit])) ↔ property (ofEdits edits) ∧
          (kind edit → ∃ fault, ((ofEdits edits).apply edit).1 = .error fault) := by
        rw [ofEdits_concat]
        rcases hresult : (ofEdits edits).apply edit with ⟨fault | created, next⟩
        · rw [eq_of_apply_eq_error hresult]
          simp
        · simpa using hstep _ (consistent_ofEdits edits) edit next (becomes_of_apply hresult)
      rw [hlast, ih]
      simp only [List.prefix_concat_iff]
      constructor
      · rintro ⟨hbefore, hfails⟩ front other (hsame | hfront) hkind
        · obtain ⟨rfl, hedit⟩ := List.append_inj' hsame rfl
          cases hedit
          exact hfails hkind
        · exact hbefore front other hfront hkind
      · intro hfails
        exact ⟨fun front other hfront => hfails front other (.inr hfront),
          hfails edits edit (.inl rfl)⟩

end FlatTree.Store
