import FlatTree.Proofs.Store.Consistency
import FlatTree.Proofs.TreeOrder
import FlatTree.Store.Outline
import Mathlib.Data.List.Induction

/-!
# Ancestry across shadow roots

Above a node stands its parent, and above a shadow root its host.  Only an append can bring a node above
itself.  It refuses the parents above the new parent, but it does not look across a shadow root, so a host
can be appended below its own shadow root.  An append that goes through closes a cycle exactly if the child
stands above its new parent, hence a store in the making is free of cycles exactly as long as there was no
such append.
-/

namespace FlatTree.Store

open Relation

/-- The parent of a node, or the host of a shadow root. -/
def above (store : Store) (node : Nat) : Option Nat :=
  if store.nodeType node = .shadowRoot then store.host node else store.parent node

/-- No node stands above itself. -/
def Acyclic (store : Store) : Prop :=
  ∀ node, ¬ TransGen (Leads store.above) node node

/-- The edit is an append that goes through although the child is the new parent or stands above it. -/
def Entangles (store : Store) : Edit → Prop
  | .append parent child =>
      (∃ next, store.append parent child = (.ok (), next)) ∧ ReflTransGen (Leads store.above) parent child
  | _ => False

variable {store : Store}

/-! ## What stands above and below -/

theorem listIncluding_eq_preorder (levels node : Nat) :
    store.listIncluding levels node = preorder store.shownBelow levels node := by
  induction levels generalizing node with
  | zero => rfl
  | succ levels ih =>
      rw [listIncluding, preorder]
      congr 1
      exact List.flatMap_congr fun child _ => ih child

section Links

variable (hconsistent : store.Consistent)

include hconsistent

theorem Consistent.above_of_parent {node parent : Nat} (hparent : store.parent node = some parent) :
    store.above node = some parent := by
  have htype : store.nodeType node ≠ .shadowRoot := by
    intro hroot
    rw [hconsistent.parent_eq_none node hroot] at hparent
    contradiction
  rw [above, if_neg htype, hparent]

theorem Consistent.above_of_host {root host : Nat} (hhost : store.host root = some host) :
    store.above root = some host := by
  rw [above, if_pos ((hconsistent.nodeType_iff root).mpr ⟨host, hhost⟩), hhost]

theorem Consistent.above_eq_some_iff {node next : Nat} :
    store.above node = some next ↔ store.parent node = some next ∨ store.host node = some next := by
  constructor
  · intro habove
    rw [above] at habove
    split at habove
    · exact Or.inr habove
    · exact Or.inl habove
  · rintro (hparent | hhost)
    · exact hconsistent.above_of_parent hparent
    · exact hconsistent.above_of_host hhost

theorem Consistent.mem_shownBelow_iff {node next : Nat} :
    next ∈ store.shownBelow node ↔ store.above next = some node := by
  rw [shownBelow, List.mem_append, Option.mem_toList, hconsistent.shadowRoot_iff,
    hconsistent.mem_children_iff, hconsistent.above_eq_some_iff]
  exact or_comm

theorem Consistent.lt_size_of_above {node next : Nat} (habove : store.above node = some next) :
    node < store.size ∧ next < store.size := by
  rcases hconsistent.above_eq_some_iff.mp habove with hparent | hhost
  · exact hconsistent.lt_size_of_parent hparent
  · constructor
    · obtain ⟨stored, hstored, -⟩ := Option.bind_eq_some_iff.mp hhost
      exact lt_size_of_node? hstored
    · obtain ⟨stored, hstored, -⟩ :=
        Option.bind_eq_some_iff.mp ((hconsistent.shadowRoot_iff next node).mpr hhost)
      exact lt_size_of_node? hstored

theorem Consistent.lt_size_of_above_path {node last : Nat} (hnode : node < store.size)
    (hpath : ReflTransGen (Leads store.above) node last) : last < store.size := by
  rcases hpath.cases_tail with rfl | ⟨before, -, hstep⟩
  · exact hnode
  · exact (hconsistent.lt_size_of_above hstep).2

theorem Consistent.below_path_iff {node last : Nat} :
    ReflTransGen (fun upper next => next ∈ store.shownBelow upper) node last ↔
      ReflTransGen (Leads store.above) last node :=
  FlatTree.below_path_iff fun _ _ => hconsistent.mem_shownBelow_iff

theorem Consistent.orderedForest_above (hacyclic : store.Acyclic) :
    OrderedForest store.above store.shownBelow where
  mem_below_iff := fun _ _ => hconsistent.mem_shownBelow_iff
  nodup_below := by
    intro upper
    rw [shownBelow, List.nodup_append]
    refine ⟨?_, hconsistent.nodup_children upper, ?_⟩
    · cases store.shadowRoot upper with
      | none => exact List.nodup_nil
      | some root => exact List.nodup_singleton root
    rintro root hroot child hchild rfl
    rw [Option.mem_toList, hconsistent.shadowRoot_iff] at hroot
    rw [hconsistent.mem_children_iff, hconsistent.parent_eq_none root] at hchild
    · contradiction
    · exact (hconsistent.nodeType_iff root).mpr ⟨upper, hroot⟩
  acyclic := hacyclic

/-- What lies below a node of an acyclic store lies on at most as many levels as there are nodes. -/
theorem Consistent.spansWithin (hacyclic : store.Acyclic) (node : Nat) :
    SpansWithin store.shownBelow store.size node := by
  by_cases hnode : node < store.size
  · have hmem : ∀ other, ReflTransGen (Leads store.above) other node → other ∈ List.range store.size := by
      intro other hpath
      rcases hpath.cases_head with rfl | ⟨next, hstep, -⟩
      · exact List.mem_range.mpr hnode
      · exact List.mem_range.mpr (hconsistent.lt_size_of_above hstep).1
    have hspans := (hconsistent.orderedForest_above hacyclic).spansWithin (List.range store.size) node hmem
    rwa [List.length_range] at hspans
  · have hspans : SpansWithin store.shownBelow 1 node := by
      intro next hnext
      rw [hconsistent.mem_shownBelow_iff] at hnext
      exact absurd (hconsistent.lt_size_of_above hnext).2 hnode
    exact hspans.mono hconsistent.size_pos

theorem Consistent.mem_shadowIncluding_iff (hacyclic : store.Acyclic) {node other : Nat} :
    other ∈ store.shadowIncluding node ↔ ReflTransGen (Leads store.above) other node := by
  rw [shadowIncluding, listIncluding_eq_preorder]
  exact (hconsistent.orderedForest_above hacyclic).mem_preorder_iff (hconsistent.spansWithin hacyclic node)

theorem Consistent.nodup_shadowIncluding (hacyclic : store.Acyclic) (node : Nat) :
    (store.shadowIncluding node).Nodup := by
  rw [shadowIncluding, listIncluding_eq_preorder]
  exact (hconsistent.orderedForest_above hacyclic).nodup_preorder store.size node

/-- Whether a store is acyclic can be tested from each of its nodes. -/
theorem Consistent.acyclic_of_iterate (hnone : ∀ node ∈ List.range store.size,
    (fun current => current.bind store.above)^[store.size] (some node) = none) : store.Acyclic := by
  intro node hcycle
  obtain ⟨next, hstep, -⟩ := TransGen.head'_iff.mp hcycle
  have hnode := List.mem_range.mpr (hconsistent.lt_size_of_above hstep).1
  exact not_transGen_of_iterate_bind_eq_none (hnone node hnode) hcycle

end Links

/-! ## What an edit does to ancestry -/

section Edits

@[simp]
theorem above_create {content : Content} (other : Nat) :
    (store.create content).2.above other = store.above other := by
  apply observe_create fun stored =>
    if (stored.map fun stored => stored.content.nodeType).getD .document = .shadowRoot then
      stored.bind StoredNode.host
    else
      stored.bind StoredNode.parent
  exact ite_self none

theorem above_setAttribute {node : Nat} {name value : String} {next : Store}
    (hnext : store.setAttribute node name value = (.ok (), next)) (other : Nat) :
    next.above other = store.above other := by
  rw [above, above, nodeType_setAttribute hnext, host_setAttribute hnext, parent_setAttribute hnext]

variable (hconsistent : store.Consistent)

include hconsistent

theorem Consistent.above_append {parent child : Nat} {next : Store}
    (hnext : store.append parent child = (.ok (), next)) (other : Nat) :
    next.above other = if other = child then some parent else store.above other := by
  obtain ⟨-, -, hchild, -⟩ := of_append_eq_ok hnext
  rw [above, above, hconsistent.nodeType_append hnext, hconsistent.host_append hnext,
    hconsistent.parent_append hnext]
  by_cases hother : other = child
  · rw [if_pos hother, hother, if_neg hchild, if_pos rfl]
  · rw [if_neg hother, if_neg hother]

theorem Consistent.acyclic_append_iff (hacyclic : store.Acyclic) {parent child : Nat} {next : Store}
    (hnext : store.append parent child = (.ok (), next)) :
    next.Acyclic ↔ ¬ ReflTransGen (Leads store.above) parent child := by
  apply acyclic_redirected_iff
  · rw [hconsistent.above_append hnext, if_pos rfl]
  · intro node hnode
    rw [hconsistent.above_append hnext, if_neg hnode]
  · exact hacyclic

omit hconsistent in
theorem above_attachShadow {node : Nat} {mode : ShadowMode} {root : Nat} {next : Store}
    (hnext : store.attachShadow node mode = (.ok root, next)) (other : Nat) :
    next.above other = if other = store.size then some node else store.above other := by
  rw [above, above, nodeType_attachShadow hnext, host_attachShadow hnext, parent_attachShadow hnext]
  by_cases hother : other = store.size
  · rw [if_pos hother, if_pos hother, if_pos hother, if_pos rfl]
  · rw [if_neg hother, if_neg hother, if_neg hother]

/-- A new shadow root stands above no node. -/
theorem Consistent.acyclic_attachShadow (hacyclic : store.Acyclic) {node : Nat} {mode : ShadowMode}
    {root : Nat} {next : Store}
    (hnext : store.attachShadow node mode = (.ok root, next)) :
    next.Acyclic := by
  obtain ⟨htype, -⟩ := of_attachShadow_eq_ok hnext
  have hnode : node < store.size := lt_size_of_nodeType (by rw [htype]; nofun)
  have hroot : next.above store.size = some node := by
    rw [above_attachShadow hnext, if_pos rfl]
  have hothers : ∀ other, other ≠ store.size → next.above other = store.above other := by
    intro other hother
    rw [above_attachShadow hnext, if_neg hother]
  refine (acyclic_redirected_iff hroot hothers hacyclic).mpr fun hback => ?_
  exact Nat.lt_irrefl _ (hconsistent.lt_size_of_above_path hnode hback)

omit hconsistent in
theorem Acyclic.of_same_above (hacyclic : store.Acyclic) {next : Store}
    (hsame : ∀ node, next.above node = store.above node) : next.Acyclic := by
  intro node
  rw [show next.above = store.above from funext hsame]
  exact hacyclic node

/-- An edit that goes through closes a cycle exactly if it is an append of a node that stands above its
new parent. -/
theorem Consistent.acyclic_becomes_iff (hacyclic : store.Acyclic) {edit : Edit} {next : Store}
    (hnext : store.Becomes edit next) : next.Acyclic ↔ ¬ store.Entangles edit := by
  cases hnext with
  | created hcontent =>
      refine iff_of_true (hacyclic.of_same_above above_create) ?_
      cases edit <;> cases hcontent <;> exact id
  | appended hdone =>
      rw [hconsistent.acyclic_append_iff hacyclic hdone, Entangles, not_and]
      exact ⟨fun hclear _ => hclear, fun hclear => hclear ⟨next, hdone⟩⟩
  | attributed hdone => exact iff_of_true (hacyclic.of_same_above (above_setAttribute hdone)) id
  | hosted hdone => exact iff_of_true (hconsistent.acyclic_attachShadow hacyclic hdone) id

end Edits

/-! ## Stores in the making -/

theorem acyclic_new : new.Acyclic := by
  intro node hcycle
  obtain ⟨next, hstep, -⟩ := TransGen.head'_iff.mp hcycle
  rcases consistent_new.above_eq_some_iff.mp hstep with hparent | hhost
  · cases node <;> cases hparent
  · cases node <;> cases hhost

theorem acyclic_concat_iff {edits : List Edit} {edit : Edit} (hacyclic : (ofEdits edits).Acyclic) :
    (ofEdits (edits ++ [edit])).Acyclic ↔ ¬ (ofEdits edits).Entangles edit := by
  rw [ofEdits_concat]
  rcases hresult : (ofEdits edits).apply edit with ⟨fault | created, next⟩
  · rw [eq_of_apply_eq_error hresult]
    refine iff_of_true hacyclic fun hentangles => ?_
    cases edit with
    | append parent child =>
        obtain ⟨⟨next, hnext⟩, -⟩ := hentangles
        rw [apply, hnext] at hresult
        cases hresult
    | _ => exact hentangles
  · exact (consistent_ofEdits edits).acyclic_becomes_iff hacyclic (becomes_of_apply hresult)

/-- All stores in the making are acyclic exactly if no edit entangled the store that it was made to. -/
theorem acyclic_of_isPrefix_iff (edits : List Edit) :
    (∀ front, front <+: edits → (ofEdits front).Acyclic) ↔
      ∀ front edit, front ++ [edit] <+: edits → ¬ (ofEdits front).Entangles edit := by
  constructor
  · intro hacyclic front edit hfront
    have hbefore : front <+: edits := (List.prefix_append front [edit]).trans hfront
    exact (acyclic_concat_iff (hacyclic front hbefore)).mp (hacyclic _ hfront)
  · intro hclear front
    induction front using List.reverseRecOn with
    | nil => exact fun _ => acyclic_new
    | append_singleton front edit ih =>
        intro hfront
        have hbefore : front <+: edits := (List.prefix_append front [edit]).trans hfront
        exact (acyclic_concat_iff (ih hbefore)).mpr (hclear front edit hfront)

end FlatTree.Store
