import FlatTree.Store.Basic
import Mathlib.Data.List.Basic
import Mathlib.Data.List.Induction

/-!
# What edits do to a store

Each edit that goes through changes a few links of a few nodes and leaves all else as it was.  What is
observed of every node is compared before and after it.  What the new store has, and every edit keeps,
holds of every store that edits make.
-/

namespace FlatTree

/-- The content of the node that an edit creates, if it does nothing else. -/
def Edit.content? : Edit → Option Content
  | .createElement space name => some (.element (Store.newElement space name))
  | .createText text => some (.text text)
  | .createComment text => some (.comment text)
  | _ => none

namespace Store

theorem exists_node? {store : Store} {node : Nat} (hlt : node < store.size) :
    ∃ stored, store.node? node = some stored :=
  ⟨store.nodes[node], Array.getElem?_eq_getElem hlt⟩

theorem lt_size_of_node? {store : Store} {node : Nat} {stored : StoredNode}
    (hstored : store.node? node = some stored) : node < store.size :=
  (Array.getElem?_eq_some_iff.mp hstored).1

theorem lt_size_of_nodeType {store : Store} {node : Nat} (htype : store.nodeType node ≠ .document) :
    node < store.size := by
  cases hstored : store.node? node with
  | none => simp [nodeType, hstored] at htype
  | some stored => exact lt_size_of_node? hstored

@[simp]
theorem node?_size (store : Store) : store.node? store.size = none :=
  Array.getElem?_eq_none (Nat.le_refl _)

theorem ext_node? {left right : Store} (hsame : ∀ node, left.node? node = right.node? node) :
    left = right :=
  congrArg Store.mk (Array.ext_getElem? hsame)

/-! ## Changes of one node -/

section Changes

variable (store : Store)

theorem node?_update (node other : Nat) (change : StoredNode → StoredNode) :
    (store.update node change).node? other =
      if other = node then (store.node? other).map change else store.node? other := by
  rw [node?, node?, update, Array.getElem?_modify]
  by_cases hsame : node = other
  · rw [if_pos hsame, if_pos hsame.symm]
  · rw [if_neg hsame, if_neg (Ne.symm hsame)]

theorem node?_create (content : Content) (other : Nat) :
    (store.create content).2.node? other =
      if other = store.size then some (.alone content) else store.node? other :=
  Array.getElem?_push

/-- Two changes of a node and of its parent, as one. -/
theorem node?_update_update (parent child other : Nat) (above below : StoredNode → StoredNode) :
    ((store.update parent above).update child below).node? other =
      (store.node? other).map fun stored =>
        (if other = child then below else id) ((if other = parent then above else id) stored) := by
  rw [node?_update, node?_update]
  cases store.node? other with
  | none => split <;> split <;> rfl
  | some stored => split <;> split <;> rfl

@[simp]
theorem size_detach_attach (parent child : Nat) :
    ((store.detach child).attach parent child).size = store.size := by
  unfold detach attach
  split <;> simp [update, size]

theorem node?_attach (parent child other : Nat) :
    (store.attach parent child).node? other = (store.node? other).map fun stored =>
      { stored with
        parent := if other = child then some parent else stored.parent
        children := if other = parent then stored.children ++ [child] else stored.children } := by
  rw [attach, node?_update_update]
  congr 1
  funext stored
  split <;> split <;> rfl

theorem node?_detach {child parent : Nat} (hparent : store.parent child = some parent)
    (other : Nat) :
    (store.detach child).node? other = (store.node? other).map fun stored =>
      { stored with
        parent := if other = child then none else stored.parent
        children := if other = parent then stored.children.erase child else stored.children } := by
  rw [detach, hparent]
  dsimp only
  rw [node?_update_update]
  congr 1
  funext stored
  split <;> split <;> rfl

end Changes

variable {store : Store}

/-- What a change of one node does not touch is observed as before at every node. -/
theorem observe_update {α : Type} (observe : Option StoredNode → α) {node : Nat}
    {change : StoredNode → StoredNode}
    (hsame : ∀ stored, store.node? node = some stored →
      observe (some (change stored)) = observe (some stored)) (other : Nat) :
    observe ((store.update node change).node? other) = observe (store.node? other) := by
  rw [node?_update]
  split
  · rename_i hother
    rw [hother]
    cases hstored : store.node? node with
    | none => rfl
    | some stored => exact hsame stored hstored
  · rfl

/-! ## The new store -/

/-- What is the same of a lone document as of no node is seen nowhere in the new store. -/
theorem observe_new {α : Type} (observe : Option StoredNode → α)
    (hsame : observe (some (.alone .document)) = observe none) (node : Nat) :
    observe (new.node? node) = observe none := by
  cases node with
  | zero => exact hsame
  | succ node => rfl

@[simp]
theorem parent_new : ∀ node, new.parent node = none :=
  observe_new (·.bind StoredNode.parent) rfl

@[simp]
theorem children_new : ∀ node, new.children node = [] :=
  observe_new (fun stored => (stored.map StoredNode.children).getD []) rfl

@[simp]
theorem shadowRoot_new : ∀ node, new.shadowRoot node = none :=
  observe_new (·.bind StoredNode.shadowRoot) rfl

@[simp]
theorem host_new : ∀ node, new.host node = none :=
  observe_new (·.bind StoredNode.host) rfl

@[simp]
theorem nodeType_new : ∀ node, new.nodeType node = .document :=
  observe_new (fun stored => (stored.map fun (stored : StoredNode) => stored.content.nodeType).getD
    NodeType.document) rfl

/-! ## Creating a node -/

/-- What is the same of a lone node as of no node is not changed by its creation. -/
theorem observe_create {α : Type} (observe : Option StoredNode → α) {content : Content}
    (hsame : observe (some (.alone content)) = observe none) (other : Nat) :
    observe ((store.create content).2.node? other) = observe (store.node? other) := by
  rw [node?_create]
  split
  · rename_i hsize
    rw [hsize, node?_size, hsame]
  · rfl

@[simp]
theorem parent_create {content : Content} :
    ∀ other, (store.create content).2.parent other = store.parent other :=
  observe_create (·.bind StoredNode.parent) rfl

@[simp]
theorem children_create {content : Content} :
    ∀ other, (store.create content).2.children other = store.children other :=
  observe_create (fun stored => (stored.map StoredNode.children).getD []) rfl

@[simp]
theorem shadowRoot_create {content : Content} :
    ∀ other, (store.create content).2.shadowRoot other = store.shadowRoot other :=
  observe_create (·.bind StoredNode.shadowRoot) rfl

@[simp]
theorem host_create {content : Content} :
    ∀ other, (store.create content).2.host other = store.host other :=
  observe_create (·.bind StoredNode.host) rfl

@[simp]
theorem nodeType_create {content : Content} (other : Nat) :
    (store.create content).2.nodeType other =
      if other = store.size then content.nodeType else store.nodeType other := by
  rw [nodeType, node?_create]
  split <;> rfl

/-! ## Appending a node -/

/-- What an append asks for, and what it makes of the store. -/
theorem append_eq_ok_iff {parent child : Nat} {next : Store} :
    store.append parent child = (.ok (), next) ↔
      parent < store.size ∧ child < store.size ∧
        (store.nodeType parent ≠ .text ∧ store.nodeType parent ≠ .comment) ∧
        store.nodeType child ≠ .shadowRoot ∧ parent ≠ child ∧ child ∉ store.ancestors parent ∧
        (store.detach child).attach parent child = next := by
  have hkind : (store.nodeType parent = .text || store.nodeType parent = .comment) = true ↔
      ¬ (store.nodeType parent ≠ .text ∧ store.nodeType parent ≠ .comment) := by
    rw [Bool.or_eq_true, decide_eq_true_eq, decide_eq_true_eq, ne_eq, ne_eq, ← not_or, not_not]
  simp only [append, hkind, ← Nat.not_lt]
  constructor
  · intro hnext
    repeat' split at hnext
    all_goals cases hnext
    rename_i hparent hchild hkind hroot hself hbelow
    exact ⟨not_not.mp hparent, not_not.mp hchild, not_not.mp hkind, hroot, hself, hbelow, rfl⟩
  · rintro ⟨hparent, hchild, hkind, hroot, hself, hbelow, rfl⟩
    rw [if_neg (not_not_intro hparent), if_neg (not_not_intro hchild), if_neg (not_not_intro hkind),
      if_neg hroot, if_neg hself, if_neg hbelow]

theorem of_append_eq_ok {parent child : Nat} {next : Store}
    (hnext : store.append parent child = (.ok (), next)) :
    parent < store.size ∧ child < store.size ∧ store.nodeType child ≠ .shadowRoot ∧
      next = (store.detach child).attach parent child := by
  obtain ⟨hparent, hchild, -, hroot, -, -, hmoved⟩ := append_eq_ok_iff.mp hnext
  exact ⟨hparent, hchild, hroot, hmoved.symm⟩

theorem size_append {parent child : Nat} {next : Store} (hnext : store.append parent child = (.ok (), next)) :
    next.size = store.size := by
  obtain ⟨-, -, -, rfl⟩ := of_append_eq_ok hnext
  exact size_detach_attach store parent child

/-! ## Setting an attribute -/

section SetAttribute

theorem content_of_element? {node : Nat} {element : Element}
    (helement : store.element? node = some element) {stored : StoredNode}
    (hstored : store.node? node = some stored) : stored.content = .element element := by
  obtain ⟨content, parent, children, root, host⟩ := stored
  rw [element?, hstored] at helement
  cases content <;> cases helement
  rfl

variable {node : Nat} {name value : String} {next : Store}
  (hnext : store.setAttribute node name value = (.ok (), next))

include hnext

theorem of_setAttribute_eq_ok : ∃ element, store.element? node = some element ∧
    next = store.update node fun stored =>
      { stored with content := .element { element with
          attributes := setPair (Text.lowered name) value element.attributes } } := by
  rw [Store.setAttribute] at hnext
  split at hnext
  · cases hnext
  · rename_i element helement
    cases hnext
    exact ⟨element, helement, rfl⟩

/-- What is the same of two elements is not changed by setting an attribute. -/
theorem observe_setAttribute {α : Type} (observe : Option StoredNode → α)
    (hsame : ∀ (stored : StoredNode) left right,
      observe (some { stored with content := .element left }) =
        observe (some { stored with content := .element right })) (other : Nat) :
    observe (next.node? other) = observe (store.node? other) := by
  obtain ⟨element, helement, rfl⟩ := of_setAttribute_eq_ok hnext
  apply observe_update
  intro stored hstored
  have hcontent := content_of_element? helement hstored
  rw [hsame stored _ element, ← hcontent]

theorem parent_setAttribute : ∀ other, next.parent other = store.parent other :=
  observe_setAttribute hnext (·.bind StoredNode.parent) fun _ _ _ => rfl

theorem children_setAttribute : ∀ other, next.children other = store.children other :=
  observe_setAttribute hnext (fun stored => (stored.map StoredNode.children).getD []) fun _ _ _ => rfl

theorem shadowRoot_setAttribute : ∀ other, next.shadowRoot other = store.shadowRoot other :=
  observe_setAttribute hnext (·.bind StoredNode.shadowRoot) fun _ _ _ => rfl

theorem host_setAttribute : ∀ other, next.host other = store.host other :=
  observe_setAttribute hnext (·.bind StoredNode.host) fun _ _ _ => rfl

theorem nodeType_setAttribute : ∀ other, next.nodeType other = store.nodeType other :=
  observe_setAttribute hnext
    (fun stored => (stored.map fun (stored : StoredNode) => stored.content.nodeType).getD
      NodeType.document) fun _ _ _ => rfl

end SetAttribute

/-! ## Attaching a shadow root -/

theorem of_attachShadow_eq_ok {node : Nat} {mode : ShadowMode} {root : Nat} {next : Store}
    (hnext : store.attachShadow node mode = (.ok root, next)) :
    store.nodeType node = .element ∧ store.shadowRoot node = none ∧ next.size = store.size + 1 ∧
      ∀ other, next.node? other =
        if other = store.size then some ⟨.shadowRoot mode, none, [], none, some node⟩
        else (store.node? other).map fun stored =>
          { stored with
            shadowRoot := if other = node then some store.size else stored.shadowRoot } := by
  rw [Store.attachShadow] at hnext
  split at hnext
  · cases hnext
  · rename_i htype
    split at hnext
    · cases hnext
    · rename_i hhosts
      cases hnext
      rw [ne_eq, Decidable.not_not] at htype
      rw [Bool.not_eq_true, Option.isSome_eq_false_iff, Option.isNone_iff_eq_none] at hhosts
      refine ⟨htype, hhosts, by simp [Store.create, update, size], ?_⟩
      intro other
      have hnode := Nat.ne_of_lt (lt_size_of_nodeType (by rw [htype]; nofun))
      rw [node?_update_update, node?_create]
      change Option.map _ (if other = store.size then _ else _) = _
      by_cases hother : other = store.size
      · rw [if_pos hother, if_pos hother, Option.map_some, hother]
        simp [Ne.symm hnode, StoredNode.alone, Store.create]
      · rw [if_neg hother, if_neg hother]
        congr 1
        funext stored
        have hcreated : other ≠ (store.create (.shadowRoot mode)).1 := hother
        rw [if_neg hcreated]
        split <;> rfl

/-- What is the same of a new shadow root as of no node, and does not depend on the shadow root of a
node, is not changed by hanging a shadow root on an element. -/
theorem observe_attachShadow {α : Type} (observe : Option StoredNode → α) {node : Nat}
    {mode : ShadowMode} {root : Nat} {next : Store}
    (hnext : store.attachShadow node mode = (.ok root, next))
    (hroot : observe (some ⟨.shadowRoot mode, none, [], none, some node⟩) = observe none)
    (hsame : ∀ stored root, observe (some { stored with shadowRoot := root }) = observe (some stored))
    (other : Nat) : observe (next.node? other) = observe (store.node? other) := by
  obtain ⟨-, -, -, hnode⟩ := of_attachShadow_eq_ok hnext
  rw [hnode]
  split
  · rename_i hother
    rw [hother, node?_size, hroot]
  · cases store.node? other with
    | none => rfl
    | some stored => exact hsame stored _

theorem parent_attachShadow {node : Nat} {mode : ShadowMode} {root : Nat} {next : Store}
    (hnext : store.attachShadow node mode = (.ok root, next)) :
    ∀ other, next.parent other = store.parent other :=
  observe_attachShadow (·.bind StoredNode.parent) hnext rfl fun _ _ => rfl

theorem children_attachShadow {node : Nat} {mode : ShadowMode} {root : Nat} {next : Store}
    (hnext : store.attachShadow node mode = (.ok root, next)) :
    ∀ other, next.children other = store.children other :=
  observe_attachShadow (fun stored => (stored.map StoredNode.children).getD []) hnext rfl fun _ _ => rfl

theorem nodeType_attachShadow {node : Nat} {mode : ShadowMode} {root : Nat} {next : Store}
    (hnext : store.attachShadow node mode = (.ok root, next)) (other : Nat) :
    next.nodeType other =
      if other = store.size then .shadowRoot else store.nodeType other := by
  obtain ⟨-, -, -, hnode⟩ := of_attachShadow_eq_ok hnext
  rw [nodeType, hnode]
  split
  · rfl
  · rw [Option.map_map]
    rfl

theorem host_attachShadow {node : Nat} {mode : ShadowMode} {root : Nat} {next : Store}
    (hnext : store.attachShadow node mode = (.ok root, next)) (other : Nat) :
    next.host other = if other = store.size then some node else store.host other := by
  obtain ⟨-, -, -, hnode⟩ := of_attachShadow_eq_ok hnext
  rw [host, hnode]
  split
  · rfl
  · rw [Option.bind_map]
    rfl

theorem shadowRoot_attachShadow {node : Nat} {mode : ShadowMode} {root : Nat} {next : Store}
    (hnext : store.attachShadow node mode = (.ok root, next)) (other : Nat) :
    next.shadowRoot other =
      if other = node then some store.size else store.shadowRoot other := by
  obtain ⟨htype, -, -, hnode⟩ := of_attachShadow_eq_ok hnext
  have hlt : node < store.size := lt_size_of_nodeType (by rw [htype]; nofun)
  rw [shadowRoot, hnode, shadowRoot]
  by_cases hother : other = store.size
  · rw [if_pos hother, hother, if_neg (Nat.ne_of_gt hlt), node?_size]
    rfl
  · rw [if_neg hother]
    by_cases hsame : other = node
    · obtain ⟨stored, hstored⟩ := exists_node? hlt
      rw [if_pos hsame, hsame, hstored]
      simp
    · simp only [hsame, if_false, Option.bind_map]
      rfl

/-! ## Sequences of edits -/

theorem exists_of_map_eq_ok {ε α β σ : Type} {outcome : Except ε α × σ} {f : α → β} {value : β} {left : σ}
    (houtcome : outcome.map (Except.map f) id = (.ok value, left)) :
    ∃ found, outcome = (.ok found, left) ∧ f found = value := by
  obtain ⟨fault | found, final⟩ := outcome
  · cases houtcome
  · cases houtcome
    exact ⟨found, rfl, rfl⟩

theorem exists_of_map_eq_error {ε α β σ : Type} {outcome : Except ε α × σ} {f : α → β} {fault : ε} {left : σ}
    (houtcome : outcome.map (Except.map f) id = (.error fault, left)) : outcome = (.error fault, left) := by
  obtain ⟨found | value, final⟩ := outcome
  · cases houtcome
    rfl
  · cases houtcome

/-- What an edit that goes through makes of a store. -/
inductive Becomes (store : Store) : Edit → Store → Prop where
  | created {edit : Edit} {content : Content} (creates : edit.content? = some content) :
      Becomes store edit (store.create content).2
  | appended {parent child : Nat} {next : Store} (done : store.append parent child = (.ok (), next)) :
      Becomes store (.append parent child) next
  | attributed {node : Nat} {name value : String} {next : Store}
      (done : store.setAttribute node name value = (.ok (), next)) :
      Becomes store (.setAttribute node name value) next
  | hosted {node root : Nat} {mode : ShadowMode} {next : Store}
      (done : store.attachShadow node mode = (.ok root, next)) :
      Becomes store (.attachShadow node mode) next

theorem becomes_of_apply {edit : Edit} {created : Option Nat} {next : Store}
    (hresult : store.apply edit = (.ok created, next)) : store.Becomes edit next := by
  cases edit with
  | createElement space name =>
      cases hresult
      exact .created rfl
  | createText text =>
      cases hresult
      exact .created rfl
  | createComment text =>
      cases hresult
      exact .created rfl
  | append parent child =>
      rw [apply] at hresult
      obtain ⟨⟨⟩, hnext, -⟩ := exists_of_map_eq_ok hresult
      exact .appended hnext
  | setAttribute node name value =>
      rw [apply] at hresult
      obtain ⟨⟨⟩, hnext, -⟩ := exists_of_map_eq_ok hresult
      exact .attributed hnext
  | attachShadow node mode =>
      rw [apply] at hresult
      obtain ⟨root, hnext, -⟩ := exists_of_map_eq_ok hresult
      exact .hosted hnext

theorem nodeType_of_content? {edit : Edit} {content : Content} (hcontent : edit.content? = some content) :
    content.nodeType ≠ .document ∧ content.nodeType ≠ .shadowRoot := by
  cases edit <;> cases hcontent
  all_goals constructor <;> rintro ⟨⟩

section Failures

variable {fault : StoreError} {left : Store}

theorem eq_of_append_eq_error {parent child : Nat}
    (hfails : store.append parent child = (.error fault, left)) : left = store := by
  rw [append] at hfails
  repeat' split at hfails
  all_goals cases hfails
  all_goals rfl

theorem eq_of_setAttribute_eq_error {node : Nat} {name value : String}
    (hfails : store.setAttribute node name value = (.error fault, left)) : left = store := by
  rw [setAttribute] at hfails
  split at hfails
  · cases hfails
    rfl
  · cases hfails

theorem eq_of_attachShadow_eq_error {node : Nat} {mode : ShadowMode}
    (hfails : store.attachShadow node mode = (.error fault, left)) : left = store := by
  rw [attachShadow] at hfails
  repeat' split at hfails
  all_goals cases hfails
  all_goals rfl

/-- An edit that fails leaves the store as it was. -/
theorem eq_of_apply_eq_error {edit : Edit} (hfails : store.apply edit = (.error fault, left)) :
    left = store := by
  cases edit with
  | createElement space name => cases hfails
  | createText text => cases hfails
  | createComment text => cases hfails
  | append parent child => exact eq_of_append_eq_error (exists_of_map_eq_error hfails)
  | setAttribute node name value => exact eq_of_setAttribute_eq_error (exists_of_map_eq_error hfails)
  | attachShadow node mode => exact eq_of_attachShadow_eq_error (exists_of_map_eq_error hfails)

end Failures

theorem ofEdits_concat (edits : List Edit) (edit : Edit) :
    ofEdits (edits ++ [edit]) = ((ofEdits edits).apply edit).2 :=
  List.foldl_concat ..

/-- What holds of the new store, and is kept by each edit that goes through, holds of every store that
edits make, whichever of them fail. -/
theorem ofEdits_induction {property : Store → Prop} (hnew : property new)
    (hstep : ∀ store edit next, property store → store.Becomes edit next → property next)
    (edits : List Edit) : property (ofEdits edits) := by
  induction edits using List.reverseRecOn with
  | nil => exact hnew
  | append_singleton edits edit ih =>
      rw [ofEdits_concat]
      rcases hresult : (ofEdits edits).apply edit with ⟨fault | created, next⟩
      · rw [eq_of_apply_eq_error hresult]
        exact ih
      · exact hstep _ edit next ih (becomes_of_apply hresult)

end Store

end FlatTree
