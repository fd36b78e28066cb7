import FlatTree.Proofs.Store.Ancestry
import FlatTree.Proofs.Text.Case
import FlatTree.Store.Slots

/-!
# Integrity of stores

Besides the links, the kinds of nodes and the names of elements are in order in every store that edits
make.  Parents form a forest, for an append refuses the new parent's ancestors; nothing is below text and
comments, and elements alone host shadow roots.  Names are folded when they are stored, so HTML elements
and attributes are known by lower-case names, and each attribute is stored once.
-/

namespace FlatTree

open Relation

/-! ## Elements -/

/-- The names of an element are stored in their proper forms. -/
structure Element.WellFormed (element : Element) : Prop where
  nodup_attributes : (element.attributes.map Prod.fst).Nodup
  attribute_lower : ∀ name ∈ element.attributes.map Prod.fst, ∀ c ∈ name.toList, c.isUpper = false
  name_lower : element.space = some htmlNamespace → ∀ c ∈ element.name.toList, c.isUpper = false
  space_ne_empty : element.space ≠ some ""

def Content.element? : Content → Option Element
  | .element stored => some stored
  | _ => none

namespace Store

theorem newElement_wellFormed (space : Option String) (name : String) :
    (newElement space name).WellFormed where
  nodup_attributes := List.nodup_nil
  attribute_lower := by
    intro name hname
    contradiction
  name_lower := by
    intro hspace c hc
    have hspace : space.filter (· ≠ "") = some htmlNamespace := hspace
    rw [newElement, hspace] at hc
    exact Text.isUpper_of_mem_lowered hc
  space_ne_empty := by
    simp [newElement, Option.filter_eq_some_iff]

/-- Setting a value under a name adds that name, unless it is there. -/
theorem map_fst_setPair (name value : String) (pairs : List (String × String)) :
    (setPair name value pairs).map Prod.fst =
      if name ∈ pairs.map Prod.fst then pairs.map Prod.fst else pairs.map Prod.fst ++ [name] := by
  induction pairs with
  | nil => rfl
  | cons pair pairs ih =>
      rw [setPair]
      by_cases hname : pair.1 = name
      · simp [hname]
      · rw [if_neg hname, List.map_cons, ih, List.map_cons]
        by_cases hmem : name ∈ pairs.map Prod.fst
        · rw [if_pos hmem, if_pos (List.mem_cons_of_mem pair.1 hmem)]
        · rw [if_neg hmem, if_neg (List.not_mem_cons_of_ne_of_not_mem (Ne.symm hname) hmem),
            List.cons_append]

theorem lookup_cons_eq_ite (name : String) (pair : String × String) (pairs : List (String × String)) :
    (pair :: pairs).lookup name = if name = pair.1 then some pair.2 else pairs.lookup name := by
  rw [List.lookup]
  split
  · rename_i hname
    rw [if_pos (beq_iff_eq.mp hname)]
  · rename_i hname
    rw [if_neg (beq_eq_false_iff_ne.mp hname)]

theorem lookup_setPair (name value other : String) (pairs : List (String × String)) :
    (setPair name value pairs).lookup other = if other = name then some value else pairs.lookup other := by
  induction pairs with
  | nil => exact lookup_cons_eq_ite other (name, value) []
  | cons pair pairs ih =>
      rw [setPair, lookup_cons_eq_ite other pair]
      split
      · rename_i hpair
        rw [lookup_cons_eq_ite, hpair]
        split <;> rfl
      · rename_i hpair
        rw [lookup_cons_eq_ite, ih]
        by_cases hother : other = pair.1
        · rw [if_pos hother, if_neg (hother ▸ hpair), if_pos hother]
        · rw [if_neg hother, if_neg hother]

theorem setPair_of_not_mem {name : String} (value : String) {pairs : List (String × String)}
    (hname : name ∉ pairs.map Prod.fst) : setPair name value pairs = pairs ++ [(name, value)] := by
  induction pairs with
  | nil => rfl
  | cons pair pairs ih =>
      rw [List.map_cons, List.mem_cons, not_or] at hname
      rw [setPair, if_neg (Ne.symm hname.1), ih hname.2, List.cons_append]

theorem wellFormed_setPair {element : Element} (hwell : element.WellFormed) (name value : String) :
    Element.WellFormed
      { element with attributes := setPair (Text.lowered name) value element.attributes } where
  nodup_attributes := by
    rw [map_fst_setPair]
    split
    · exact hwell.nodup_attributes
    · rename_i hnew
      rw [List.nodup_append_comm]
      exact List.nodup_cons.mpr ⟨hnew, hwell.nodup_attributes⟩
  attribute_lower := by
    intro stored hstored
    rw [map_fst_setPair] at hstored
    split at hstored
    · exact hwell.attribute_lower stored hstored
    · rcases List.mem_append.mp hstored with hold | hnew
      · exact hwell.attribute_lower stored hold
      · rw [List.mem_singleton.mp hnew]
        exact fun c hc => Text.isUpper_of_mem_lowered hc
  name_lower := hwell.name_lower
  space_ne_empty := hwell.space_ne_empty

/-! ## Intact stores -/

/-- The links of a store agree, and its nodes are of the kinds and names that they should be. -/
structure Intact (store : Store) : Prop extends Consistent store where
  acyclic_parent : ∀ node, ¬ TransGen (Leads store.parent) node node
  children_eq_nil : ∀ node, store.nodeType node = .text ∨ store.nodeType node = .comment →
    store.children node = []
  nodeType_host : ∀ host root, store.shadowRoot host = some root → store.nodeType host = .element
  wellFormed : ∀ node element, store.element? node = some element → element.WellFormed

section Edits

variable {store : Store}

theorem element?_eq_bind (node : Nat) :
    store.element? node = (store.node? node).bind fun stored => stored.content.element? := by
  rw [element?]
  cases store.node? node with
  | none => rfl
  | some stored =>
      obtain ⟨content, parent, children, root, host⟩ := stored
      cases content <;> rfl

theorem isSome_element? (store : Store) (node : Nat) :
    (store.element? node).isSome = decide (store.nodeType node = .element) := by
  rw [element?_eq_bind, nodeType]
  cases store.node? node with
  | none => rfl
  | some stored =>
      obtain ⟨content, parent, children, root, host⟩ := stored
      cases content <;> rfl

theorem element?_eq_none {node : Nat} (htype : store.nodeType node ≠ .element) :
    store.element? node = none := by
  rw [← Option.not_isSome_iff_eq_none, isSome_element?, decide_eq_true_eq]
  exact htype

theorem children_eq_nil_of_node? {node : Nat} (hnone : store.node? node = none) :
    store.children node = [] := by
  rw [children, hnone]
  rfl

variable (hintact : store.Intact)

include hintact

/-- The parents above a node end within as many steps as there are nodes. -/
theorem Intact.endsWithin_parent (node : Nat) : EndsWithin store.parent store.size node := by
  have hends : EndsWithin store.parent (List.range store.size).length node := by
    apply endsWithin_of_acyclic
    · intro last hpath
      obtain ⟨before, -, hstep⟩ := TransGen.tail'_iff.mp hpath
      exact List.mem_range.mpr (hintact.lt_size_of_parent hstep).2
    · exact fun last _ => hintact.acyclic_parent last
  rwa [List.length_range] at hends

theorem Intact.mem_ancestors_iff {node other : Nat} :
    other ∈ store.ancestors node ↔ TransGen (Leads store.parent) node other :=
  mem_walk_iff (hintact.endsWithin_parent node)

/-- The parent of an append that goes through is neither the child nor below it. -/
theorem Intact.not_path_of_append {parent child : Nat} {next : Store}
    (hnext : store.append parent child = (.ok (), next)) :
    ¬ ReflTransGen (Leads store.parent) parent child := by
  obtain ⟨-, -, -, -, hself, hbelow, -⟩ := append_eq_ok_iff.mp hnext
  intro hpath
  rcases reflTransGen_iff_eq_or_transGen.mp hpath with hsame | habove
  · exact hself hsame.symm
  · exact hbelow (hintact.mem_ancestors_iff.mpr habove)

/-- Where no parent and no child changes, and every node that is there keeps its kind. -/
theorem Intact.of_same_tree {next : Store} (hnext : next.Consistent)
    (hparent : ∀ node, next.parent node = store.parent node)
    (hchildren : ∀ node, next.children node = store.children node)
    (htype : ∀ node, node < store.size → next.nodeType node = store.nodeType node)
    (hhost : ∀ host root, next.shadowRoot host = some root → store.nodeType host = .element)
    (hwell : ∀ node element, next.element? node = some element → element.WellFormed) :
    next.Intact where
  toConsistent := hnext
  acyclic_parent := by
    rw [funext hparent]
    exact hintact.acyclic_parent
  children_eq_nil := by
    intro node hkind
    rw [hchildren]
    by_cases hlt : node < store.size
    · rw [htype node hlt] at hkind
      exact hintact.children_eq_nil node hkind
    · exact children_eq_nil_of_node? (Array.getElem?_eq_none (Nat.le_of_not_lt hlt))
  nodeType_host := by
    intro host root hroot
    have helement := hhost host root hroot
    rw [htype host (lt_size_of_nodeType (by rw [helement]; nofun)), helement]
  wellFormed := hwell

theorem Intact.create {content : Content} (hroot : content.nodeType ≠ .shadowRoot)
    (hwell : ∀ element, content = .element element → element.WellFormed) :
    (store.create content).2.Intact := by
  apply hintact.of_same_tree (hintact.toConsistent.create hroot) parent_create children_create
  · intro node hlt
    rw [nodeType_create, if_neg (Nat.ne_of_lt hlt)]
  · intro host root hshadow
    rw [shadowRoot_create] at hshadow
    exact hintact.nodeType_host host root hshadow
  · intro node element helement
    rw [element?_eq_bind, node?_create] at helement
    split at helement
    · apply hwell element
      cases content <;> cases helement
      rfl
    · rw [← element?_eq_bind] at helement
      exact hintact.wellFormed node element helement

theorem Intact.append {parent child : Nat} {next : Store}
    (hnext : store.append parent child = (.ok (), next)) : next.Intact where
  toConsistent := hintact.toConsistent.append hnext
  acyclic_parent := by
    have hparent := hintact.parent_append hnext
    have hchild : next.parent child = some parent := by rw [hparent, if_pos rfl]
    have hsame : ∀ node, node ≠ child → next.parent node = store.parent node := by
      intro node hnode
      rw [hparent, if_neg hnode]
    apply (acyclic_redirected_iff hchild hsame hintact.acyclic_parent).mpr
    exact hintact.not_path_of_append hnext
  children_eq_nil := by
    obtain ⟨-, -, ⟨htext, hcomment⟩, -⟩ := append_eq_ok_iff.mp hnext
    intro node hkind
    rw [hintact.nodeType_append hnext] at hkind
    have hnode : node ≠ parent := by
      rintro rfl
      exact hkind.elim htext hcomment
    rw [hintact.children_append hnext, hintact.children_eq_nil node hkind, if_neg hnode]
    rfl
  nodeType_host := by
    intro host root hshadow
    rw [hintact.shadowRoot_append hnext] at hshadow
    rw [hintact.nodeType_append hnext]
    exact hintact.nodeType_host host root hshadow
  wellFormed := by
    intro node element helement
    obtain ⟨-, -, -, rfl⟩ := of_append_eq_ok hnext
    rw [element?_eq_bind, hintact.node?_detach_attach, Option.bind_map] at helement
    exact hintact.wellFormed node element (element?_eq_bind node ▸ helement)

theorem Intact.setAttribute {node : Nat} {name value : String} {next : Store}
    (hnext : store.setAttribute node name value = (.ok (), next)) : next.Intact := by
  apply hintact.of_same_tree (hintact.toConsistent.setAttribute hnext) (parent_setAttribute hnext)
    (children_setAttribute hnext)
  · intro other _
    exact nodeType_setAttribute hnext other
  · intro host root hshadow
    rw [shadowRoot_setAttribute hnext] at hshadow
    exact hintact.nodeType_host host root hshadow
  · intro other stored hstored
    obtain ⟨element, helement, rfl⟩ := of_setAttribute_eq_ok hnext
    rw [element?_eq_bind, node?_update] at hstored
    split at hstored
    · rw [Option.bind_map] at hstored
      obtain ⟨_, _, hset⟩ := Option.bind_eq_some_iff.mp hstored
      cases hset
      exact wellFormed_setPair (hintact.wellFormed node element helement) name value
    · rw [← element?_eq_bind] at hstored
      exact hintact.wellFormed other stored hstored

theorem Intact.attachShadow {node : Nat} {mode : ShadowMode} {root : Nat} {next : Store}
    (hnext : store.attachShadow node mode = (.ok root, next)) : next.Intact := by
  obtain ⟨htype, -⟩ := of_attachShadow_eq_ok hnext
  apply hintact.of_same_tree (hintact.toConsistent.attachShadow hnext) (parent_attachShadow hnext)
    (children_attachShadow hnext)
  · intro other hlt
    rw [nodeType_attachShadow hnext, if_neg (Nat.ne_of_lt hlt)]
  · intro host root hshadow
    rw [shadowRoot_attachShadow hnext] at hshadow
    split at hshadow
    · rename_i hhost
      rw [hhost, htype]
    · exact hintact.nodeType_host host root hshadow
  · intro other element helement
    have hsame := observe_attachShadow (·.bind fun stored => stored.content.element?) hnext rfl
      (fun _ _ => rfl) other
    rw [element?_eq_bind, hsame, ← element?_eq_bind] at helement
    exact hintact.wellFormed other element helement

omit hintact in
theorem wellFormed_of_content? {edit : Edit} {content : Content} (hcontent : edit.content? = some content)
    (element : Element) (helement : content = .element element) : element.WellFormed := by
  cases edit <;> cases hcontent <;> cases helement
  exact newElement_wellFormed _ _

theorem Intact.becomes {edit : Edit} {next : Store} (hnext : store.Becomes edit next) : next.Intact := by
  cases hnext with
  | created hcontent =>
      exact hintact.create (nodeType_of_content? hcontent).2 (wellFormed_of_content? hcontent)
  | appended hdone => exact hintact.append hdone
  | attributed hdone => exact hintact.setAttribute hdone
  | hosted hdone => exact hintact.attachShadow hdone

end Edits

theorem intact_new : new.Intact where
  toConsistent := consistent_new
  acyclic_parent := by
    intro node hcycle
    obtain ⟨next, hstep, -⟩ := TransGen.head'_iff.mp hcycle
    rw [Leads, parent_new] at hstep
    contradiction
  children_eq_nil := fun node _ => children_new node
  nodeType_host := by simp
  wellFormed := by
    intro node element helement
    have hnone := observe_new (·.bind fun stored => stored.content.element?) rfl node
    rw [element?_eq_bind, hnone] at helement
    contradiction

theorem intact_ofEdits (edits : List Edit) : (ofEdits edits).Intact :=
  ofEdits_induction intact_new (fun _ _ _ hintact hnext => hintact.becomes hnext) edits

/-- Whatever edits are made, and whichever of them fail, every node stands once among the children of its
parent and nowhere else, no chain of parents comes back, and nothing is below text and comments.  A host
and its shadow root name each other; the host is an element, and the shadow root has no parent.  The names
of attributes and of HTML elements have no upper case, no attribute is stored twice, and the namespace of
an element is not empty. -/
theorem ofEdits_integrity (edits : List Edit) :
    let store := ofEdits edits
    (∀ parent node, (store.children parent).count node =
      if store.parent node = some parent then 1 else 0) ∧
    (∀ node, ¬ TransGen (Leads store.parent) node node) ∧
    (∀ node, store.nodeType node = .text ∨ store.nodeType node = .comment →
      store.children node = []) ∧
    (∀ host root, store.shadowRoot host = some root ↔ store.host root = some host) ∧
    (∀ host root, store.shadowRoot host = some root → store.nodeType host = .element ∧
      store.nodeType root = .shadowRoot ∧ store.parent root = none) ∧
    ∀ node element, store.element? node = some element →
      (element.attributes.map Prod.fst).Nodup ∧
      (∀ pair ∈ element.attributes, ∀ c ∈ pair.1.toList, c.isUpper = false) ∧
      (element.space = some htmlNamespace → ∀ c ∈ element.name.toList, c.isUpper = false) ∧
      element.space ≠ some "" := by
  intro store
  have hintact : store.Intact := intact_ofEdits edits
  refine ⟨?_, hintact.acyclic_parent, hintact.children_eq_nil, hintact.shadowRoot_iff, ?_, ?_⟩
  · intro parent node
    rw [(hintact.nodup_children parent).count]
    simp only [hintact.mem_children_iff]
  · intro host root hshadow
    have hroot : store.nodeType root = .shadowRoot :=
      (hintact.nodeType_iff root).mpr ⟨host, (hintact.shadowRoot_iff host root).mp hshadow⟩
    exact ⟨hintact.nodeType_host host root hshadow, hroot, hintact.parent_eq_none root hroot⟩
  · intro node element helement
    have hwell := hintact.wellFormed node element helement
    exact ⟨hwell.nodup_attributes,
      fun pair hpair => hwell.attribute_lower pair.1 (List.mem_map_of_mem hpair),
      hwell.name_lower, hwell.space_ne_empty⟩

end Store

end FlatTree
