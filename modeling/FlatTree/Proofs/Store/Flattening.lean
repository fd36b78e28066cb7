import FlatTree.Proofs.Flat.Mirror
import FlatTree.Proofs.Store.Assignment
import FlatTree.Proofs.Store.Integrity

/-!
# Flattened stores

A flat copy of a store holds one node for each node that is shown below the document, with the same
content, and the flat children of a node as its children.  It has no shadow roots.  Every store that edits
make has such a copy, and a selector gives the same answers in a store and in its flat copies, as long as
no slot hosts a shadow root and the document stands at the top.
-/

namespace FlatTree.Store

open Query Relation

/-- A node is the document or shown below it. -/
def Shown (store : Store) (node : Nat) : Prop :=
  store.toTree.Shown node

def flatChildren (store : Store) (node : Nat) : List Nat :=
  store.toTree.flatChildren node

def content? (store : Store) (node : Nat) : Option Content :=
  (store.node? node).map StoredNode.content

/-- The target holds the copies of what the source shows, and nothing else. -/
structure FlatCopy (source target : Store) (copy : Nat → Nat) : Prop where
  document : copy 0 = 0
  injective : ∀ left right, source.Shown left → source.Shown right → copy left = copy right →
    left = right
  onto : ∀ place < target.size, ∃ node, source.Shown node ∧ copy node = place
  content : ∀ node, source.Shown node → target.content? (copy node) = source.content? node
  children : ∀ node, source.Shown node →
    target.children (copy node) = (source.flatChildren node).map copy
  parent : ∀ node child, source.Shown node → child ∈ source.flatChildren node →
    target.parent (copy child) = some (copy node)
  parent_document : target.parent 0 = none
  shadowRoot : ∀ place, target.shadowRoot place = none
  host : ∀ place, target.host place = none

/-! ## What the content of a node decides -/

theorem element?_eq (store : Store) (node : Nat) :
    store.element? node = (store.content? node).bind Content.element? := by
  rw [element?_eq_bind, content?, Option.bind_map]
  rfl

theorem nodeType_eq (store : Store) (node : Nat) :
    store.nodeType node = ((store.content? node).map Content.nodeType).getD .document := by
  rw [nodeType, content?, Option.map_map]
  rfl

/-! ## What consistent stores show -/

section Source

variable {store : Store} (hconsistent : store.Consistent)

include hconsistent

variable (hslots : ∀ slot, store.isSlot slot = true → store.shadowRoot slot = none)
  (hdocument : store.parent 0 = none)

include hslots

theorem Consistent.nodeType_ne_of_shown {node : Nat} (hshown : store.Shown node) :
    store.nodeType node ≠ .shadowRoot := by
  have hcoherent := hconsistent.coherent_toTree hslots
  exact (hcoherent.not_slot_of_shown (fun _ => mem_nodes_of_isSlot)
    hconsistent.not_slot_document hconsistent.nodeType_document_ne hshown).2

include hdocument

theorem Consistent.rooted_toTree : store.toTree.Rooted := by
  apply (hconsistent.coherent_toTree hslots).rooted (fun _ => mem_nodes_of_isSlot)
    hconsistent.not_slot_document hconsistent.nodeType_document_ne
  · exact hdocument
  · exact List.mem_range.mpr hconsistent.size_pos
  · intro node parent hparent
    exact List.mem_range.mpr (hconsistent.lt_size_of_parent hparent).1

end Source

/-! ## Flat copies -/

namespace FlatCopy

variable {source target : Store} {copy : Nat → Nat} (hcopy : FlatCopy source target copy)
  (hconsistent : source.Consistent)
  (hslots : ∀ slot, source.isSlot slot = true → source.shadowRoot slot = none)
  (hdocument : source.parent 0 = none)

include hcopy

theorem element? {node : Nat} (hshown : source.Shown node) :
    target.element? (copy node) = source.element? node := by
  rw [element?_eq, element?_eq, hcopy.content node hshown]

theorem nodeType {node : Nat} (hshown : source.Shown node) :
    target.nodeType (copy node) = source.nodeType node := by
  rw [nodeType_eq, nodeType_eq, hcopy.content node hshown]

theorem attribute? {node : Nat} (hshown : source.Shown node) (name : String) :
    target.attribute? (copy node) name = source.attribute? node name := by
  rw [Store.attribute?, Store.attribute?, hcopy.element? hshown]

include hconsistent hslots

theorem plain : target.toTree.Plain := by
  have htype (place : Nat) : target.nodeType place ≠ .shadowRoot := by
    by_cases hplace : place < target.size
    · obtain ⟨node, hshown, rfl⟩ := hcopy.onto place hplace
      rw [hcopy.nodeType hshown]
      exact hconsistent.nodeType_ne_of_shown hslots hshown
    · intro hroot
      apply hplace
      apply lt_size_of_nodeType
      rw [hroot]
      nofun
  refine ⟨htype, hcopy.shadowRoot, ?_, ?_⟩
  · intro place
    change target.isSlot place = false
    rw [isSlot, enclosingRoot, if_neg (htype _), Option.isSome_none, Bool.and_false]
  · intro place
    cases hassigned : target.assignedSlot place with
    | none => exact hassigned
    | some slot =>
        obtain ⟨-, host, root, -, -, hroot, -⟩ := assignedSlot_eq_some_iff.mp hassigned
        rw [hcopy.shadowRoot] at hroot
        contradiction

theorem flatChildren_eq {node : Nat} (hshown : source.Shown node) :
    target.toTree.flatChildren (copy node) = (source.flatChildren node).map copy := by
  have hchildren := hcopy.children node hshown
  have hnodup : (target.children (copy node)).Nodup := by
    rw [hchildren]
    apply List.Nodup.map_on _ (NodeTree.nodup_flatChildren node)
    intro left hleft right hright
    exact hcopy.injective left right (hshown.child hleft) (hshown.child hright)
  rw [← hchildren]
  exact (hcopy.plain hconsistent hslots).flatChildren_eq hnodup

theorem exists_of_shown {place : Nat} (hplace : target.Shown place) :
    ∃ node, source.Shown node ∧ copy node = place := by
  induction hplace with
  | refl => exact ⟨0, NodeTree.shown_document, hcopy.document⟩
  | @tail above place _ hmem ih =>
      obtain ⟨node, hshown, rfl⟩ := ih
      rw [NodeTree.Parents, hcopy.flatChildren_eq hconsistent hslots hshown] at hmem
      obtain ⟨child, hchild, rfl⟩ := List.mem_map.mp hmem
      exact ⟨child, hshown.child hchild, rfl⟩

include hdocument

theorem lt_size {node : Nat} (hshown : source.Shown node) : copy node < target.size := by
  have hnode := (hconsistent.rooted_toTree hslots hdocument).mem_nodes node hshown
  obtain ⟨stored, hstored⟩ := exists_node? (List.mem_range.mp hnode)
  have hcontent := hcopy.content node hshown
  rw [content?, content?, hstored, Option.map_some, Option.map_eq_some_iff] at hcontent
  obtain ⟨copied, hcopied, -⟩ := hcontent
  exact lt_size_of_node? hcopied

theorem rooted : target.toTree.Rooted where
  flatParent_document := by
    rw [(hcopy.plain hconsistent hslots).flatParent_eq]
    exact hcopy.parent_document
  flatParent_of_mem := by
    intro above place habove hmem
    obtain ⟨node, hshown, rfl⟩ := hcopy.exists_of_shown hconsistent hslots habove
    rw [hcopy.flatChildren_eq hconsistent hslots hshown] at hmem
    obtain ⟨child, hchild, rfl⟩ := List.mem_map.mp hmem
    rw [(hcopy.plain hconsistent hslots).flatParent_eq]
    exact hcopy.parent node child hshown hchild
  mem_nodes := by
    intro place hplace
    obtain ⟨node, hshown, rfl⟩ := hcopy.exists_of_shown hconsistent hslots hplace
    exact List.mem_range.mpr (hcopy.lt_size hconsistent hslots hdocument hshown)

omit hdocument in
theorem mirrors : source.toTree.Mirrors target.toTree copy where
  document := hcopy.document
  injective := hcopy.injective
  flatChildren := fun _ hshown => hcopy.flatChildren_eq hconsistent hslots hshown
  nodeType := fun _ hshown => hcopy.nodeType hshown
  localName := by
    intro node hshown
    exact congrArg (fun element => (element.map Element.name).getD "") (hcopy.element? hshown)
  space := by
    intro node hshown
    exact congrArg (fun element => element.bind Element.space) (hcopy.element? hshown)
  attributeValue := fun _ hshown name => hcopy.attribute? hshown name

end FlatCopy

/-! ## The flattened store -/

/-- The document and what is shown below it, in document order. -/
def shownNodes (store : Store) : List Nat :=
  0 :: store.toTree.flatDescendants 0

/-- The place of a shown node among all shown nodes. -/
def placeOf (store : Store) (node : Nat) : Nat :=
  store.shownNodes.idxOf node

/-- The copy of a node.  Its parent is the shown node that has the node among its flat children. -/
def flattenedNode (store : Store) (node : Nat) : StoredNode where
  content := (store.content? node).getD .document
  parent := (store.shownNodes.find? fun above => node ∈ store.flatChildren above).map store.placeOf
  children := (store.flatChildren node).map store.placeOf
  shadowRoot := none
  host := none

/-- The flat tree as a store of its own. -/
def flattened (store : Store) : Store :=
  ⟨(store.shownNodes.map store.flattenedNode).toArray⟩

section Flattened

variable {store : Store} (hconsistent : store.Consistent)
  (hslots : ∀ slot, store.isSlot slot = true → store.shadowRoot slot = none)
  (hdocument : store.parent 0 = none)

include hconsistent hslots hdocument

theorem Consistent.mem_flatDescendants_iff {node : Nat} :
    node ∈ store.toTree.flatDescendants 0 ↔ TransGen store.toTree.Parents 0 node :=
  (hconsistent.rooted_toTree hslots hdocument).mem_flatDescendants_iff NodeTree.shown_document

theorem Consistent.mem_shownNodes_iff {node : Nat} : node ∈ store.shownNodes ↔ store.Shown node := by
  rw [shownNodes, List.mem_cons, hconsistent.mem_flatDescendants_iff hslots hdocument]
  exact reflTransGen_iff_eq_or_transGen.symm

/-- The document is no flat child of what is shown. -/
theorem Consistent.document_not_mem {above : Nat} (hshown : store.Shown above) :
    0 ∉ store.flatChildren above := by
  have hrooted := hconsistent.rooted_toTree hslots hdocument
  intro hmem
  have hparent := hrooted.flatParent_of_mem above 0 hshown hmem
  have hnone : store.toTree.flatParent 0 = none := hrooted.flatParent_document
  rw [hnone] at hparent
  contradiction

theorem Consistent.nodup_shownNodes : store.shownNodes.Nodup := by
  rw [shownNodes, List.nodup_cons]
  refine ⟨?_, NodeTree.nodup_flatDescendants 0⟩
  rw [hconsistent.mem_flatDescendants_iff hslots hdocument, TransGen.tail'_iff]
  rintro ⟨above, hpath, hmem⟩
  exact hconsistent.document_not_mem hslots hdocument hpath hmem

omit hconsistent hslots hdocument in
theorem node?_flattened_eq (place : Nat) :
    store.flattened.node? place = (store.shownNodes[place]?).map store.flattenedNode := by
  rw [node?, flattened, List.getElem?_toArray, List.getElem?_map]

theorem Consistent.node?_flattened {node : Nat} (hshown : store.Shown node) :
    store.flattened.node? (store.placeOf node) = some (store.flattenedNode node) := by
  have hmem := (hconsistent.mem_shownNodes_iff hslots hdocument).mpr hshown
  rw [node?_flattened_eq, placeOf, List.getElem?_idxOf hmem, Option.map_some]

/-- The shown node that has a flat child is found, since it is the only one. -/
theorem Consistent.find?_parent {node child : Nat} (hshown : store.Shown node)
    (hchild : child ∈ store.flatChildren node) :
    store.shownNodes.find? (fun above => child ∈ store.flatChildren above) = some node := by
  have hrooted := hconsistent.rooted_toTree hslots hdocument
  have hmem := (hconsistent.mem_shownNodes_iff hslots hdocument).mpr hshown
  cases hfind : store.shownNodes.find? fun above => child ∈ store.flatChildren above with
  | none =>
      have hnot := List.find?_eq_none.mp hfind node hmem
      exact absurd (decide_eq_true hchild) hnot
  | some above =>
      have habove := (hconsistent.mem_shownNodes_iff hslots hdocument).mp
        (List.mem_of_find?_eq_some hfind)
      have hbelow : child ∈ store.flatChildren above := by
        simpa using List.find?_some hfind
      have hsame := hrooted.flatParent_of_mem above child habove hbelow
      rw [hrooted.flatParent_of_mem node child hshown hchild] at hsame
      exact hsame.symm

theorem Consistent.flatCopy_flattened : FlatCopy store store.flattened store.placeOf where
  document := List.idxOf_cons_self
  injective := by
    intro left right hleft _ hsame
    have hmem := (hconsistent.mem_shownNodes_iff hslots hdocument).mpr hleft
    exact (List.idxOf_inj hmem).mp hsame
  onto := by
    intro place hplace
    have hlt : place < store.shownNodes.length := by
      simpa [flattened, size] using hplace
    refine ⟨store.shownNodes[place], ?_, ?_⟩
    · exact (hconsistent.mem_shownNodes_iff hslots hdocument).mp (List.getElem_mem hlt)
    · exact (hconsistent.nodup_shownNodes hslots hdocument).idxOf_getElem place hlt
  content := by
    intro node hshown
    have hnode := (hconsistent.rooted_toTree hslots hdocument).mem_nodes node hshown
    obtain ⟨stored, hstored⟩ := exists_node? (List.mem_range.mp hnode)
    rw [content?, hconsistent.node?_flattened hslots hdocument hshown, Option.map_some,
      flattenedNode, content?, hstored]
    rfl
  children := by
    intro node hshown
    rw [Store.children, hconsistent.node?_flattened hslots hdocument hshown]
    rfl
  parent := by
    intro node child hshown hchild
    rw [Store.parent, hconsistent.node?_flattened hslots hdocument (hshown.child hchild),
      Option.bind_some, flattenedNode,
      hconsistent.find?_parent hslots hdocument hshown hchild]
    rfl
  parent_document := by
    have hnone : store.shownNodes.find? (fun above => 0 ∈ store.flatChildren above) = none := by
      rw [List.find?_eq_none]
      intro above habove hmem
      have hshown := (hconsistent.mem_shownNodes_iff hslots hdocument).mp habove
      exact hconsistent.document_not_mem hslots hdocument hshown (of_decide_eq_true hmem)
    have hfirst : store.flattened.node? 0 = some (store.flattenedNode 0) := rfl
    rw [Store.parent, hfirst, Option.bind_some, flattenedNode, hnone]
    rfl
  shadowRoot := by
    intro place
    rw [Store.shadowRoot, node?_flattened_eq, Option.bind_map]
    exact Option.bind_fun_none _
  host := by
    intro place
    rw [Store.host, node?_flattened_eq, Option.bind_map]
    exact Option.bind_fun_none _

end Flattened

/-- A store that edits make has a flat copy, and in every flat copy each selector has the same answers,
through the copies, as in the store itself: for the whole document, for any shown node as context, and for
whether a shown node matches.  A selector that does not parse fails in both with the same error.  Nodes
that are above themselves do no harm: the document does not lead to them. -/
theorem answer_flatCopy (edits : List Edit)
    (hslots : ∀ slot, (ofEdits edits).isSlot slot = true → (ofEdits edits).shadowRoot slot = none)
    (hdocument : (ofEdits edits).parent 0 = none) :
    FlatCopy (ofEdits edits) (ofEdits edits).flattened (ofEdits edits).placeOf ∧
      ∀ target copy, FlatCopy (ofEdits edits) target copy →
        ∀ (selector : String) (selection : Selection Nat),
          selection.Within (ofEdits edits).Shown →
            (Question.select selector (selection.map copy)).answer target.toTree =
              ((Question.select selector selection).answer (ofEdits edits).toTree).map
                (Answer.map copy) := by
  have hconsistent := consistent_ofEdits edits
  refine ⟨hconsistent.flatCopy_flattened hslots hdocument, ?_⟩
  intro target copy hcopy selector selection hwithin
  exact answer_map (hcopy.mirrors hconsistent hslots)
    (hconsistent.rooted_toTree hslots hdocument) (hcopy.rooted hconsistent hslots hdocument)
    selector hwithin

/-- A host with a paragraph in its shadow tree, whose slot shows the first child of the host. -/
def slotted : List Edit :=
  [.createElement (some htmlNamespace) "div", .append 0 1, .attachShadow 1 .opened,
    .createElement (some htmlNamespace) "p", .append 2 3,
    .createElement (some htmlNamespace) "slot", .append 3 4,
    .createElement (some htmlNamespace) "span", .append 1 5, .createComment "", .append 1 6]

theorem flatDescendants_slotted : (ofEdits slotted).toTree.flatDescendants 0 = [1, 3, 5] := by
  have hdocument : (ofEdits slotted).toTree.flatChildren 0 = [1] := by decide +kernel
  have hhost : (ofEdits slotted).toTree.flatChildren 1 = [3] := by decide +kernel
  have hparagraph : (ofEdits slotted).toTree.flatChildren 3 = [5] := by decide +kernel
  have hspan : (ofEdits slotted).toTree.flatChildren 5 = [] := by decide +kernel
  have hnodes : (ofEdits slotted).toTree.nodes = [0, 1, 2, 3, 4, 5, 6] := by decide +kernel
  simp [NodeTree.flatDescendants, NodeTree.listBelow, NodeTree.without, hdocument, hhost, hparagraph,
    hspan, hnodes]

/-- The query finds node 5, which the flat copy has as node 3. -/
theorem answer_flatCopy_slotted :
    (∀ slot, (ofEdits slotted).isSlot slot = true → (ofEdits slotted).shadowRoot slot = none) ∧
      (ofEdits slotted).parent 0 = none ∧ (ofEdits slotted).children 1 = [5, 6] ∧
      (ofEdits slotted).flatChildren 1 = [3] ∧ (ofEdits slotted).flatChildren 3 = [5] ∧
      (Question.select "p > span" (.all none)).answer (ofEdits slotted).toTree = .ok (.nodes [5]) ∧
      (Question.select "p > span" (.all none)).answer (ofEdits slotted).flattened.toTree =
        .ok (.nodes [3]) := by
  have hbounded : ∀ slot ∈ List.range (ofEdits slotted).size,
      (ofEdits slotted).isSlot slot = true → (ofEdits slotted).shadowRoot slot = none := by
    decide +kernel
  have hslots : ∀ slot, (ofEdits slotted).isSlot slot = true →
      (ofEdits slotted).shadowRoot slot = none :=
    fun slot hslot => hbounded slot (mem_nodes_of_isSlot hslot) hslot
  have hdocument : (ofEdits slotted).parent 0 = none := by decide +kernel
  have hchildren : (ofEdits slotted).children 1 = [5, 6] := by decide +kernel
  have hhost : (ofEdits slotted).flatChildren 1 = [3] := by decide +kernel
  have hparagraph : (ofEdits slotted).flatChildren 3 = [5] := by decide +kernel
  have hfound : (Question.select "p > span" (.all none)).answer (ofEdits slotted).toTree =
      .ok (.nodes [5]) := by
    change Except.map (fun list => Answer.nodes (List.filter _ (List.filter _
      ((ofEdits slotted).toTree.flatDescendants 0)))) _ = _
    rw [flatDescendants_slotted]
    decide +kernel
  have hplace : (ofEdits slotted).placeOf 5 = 3 := by
    rw [placeOf, shownNodes, flatDescendants_slotted]
    decide
  obtain ⟨hcopy, hanswer⟩ := answer_flatCopy slotted hslots hdocument
  have hcontext : Selection.Within (ofEdits slotted).Shown (.all none) := by
    intro node hnode
    cases hnode
  refine ⟨hslots, hdocument, hchildren, hhost, hparagraph, hfound, ?_⟩
  have hcopied : (Question.select "p > span" (.all none)).answer (ofEdits slotted).flattened.toTree = _ :=
    hanswer _ _ hcopy "p > span" (.all none) hcontext
  rw [hcopied, hfound, Except.map, Answer.map, List.map_singleton, hplace]

end FlatTree.Store
