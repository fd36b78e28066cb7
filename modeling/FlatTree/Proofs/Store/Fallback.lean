import FlatTree.Proofs.Store.HostText
import FlatTree.Proofs.Store.Lookup

/-!
# Fallback content behind a text

Text of any content is slotted, white space included.  A new text in a host takes the place of the fallback
content of the first nameless slot, unless other nodes are assigned to this slot already.  No selector
notices it exactly if the fallback content is nothing that selectors could find or start from: it has no
flat parents, and the slot shows nothing but text and comments.
-/

namespace FlatTree.NodeTree

open Query Relation Selector

variable {ν : Type} [DecidableEq ν]

/-- Selectors have the same answers in both trees, as far as the nodes of the source are concerned. -/
def SameAnswers (source target : NodeTree ν) : Prop :=
  ∀ selector, ∀ selection : Selection ν, selection.Within (· ∈ source.nodes) →
    (Question.select selector selection).answer target =
      (Question.select selector selection).answer source

/-- The list that asks for an element below an element. -/
def belowElement : SelectorList :=
  [.link [.feature .universal] .child (.last [.feature .universal])]

theorem wellFormed_belowElement : belowElement.WellFormed := by
  simp [belowElement, SelectorList.WellFormed, wellFormedAlternatives, wellFormedChain,
    wellFormedSimples, wellFormedSimple, Feature.WellFormed]

theorem wellFormed_universal : (SelectorList.ofFeature .universal).WellFormed :=
  SelectorList.wellFormed_ofFeature trivial

theorem SameAnswers.answer_eq {source target : NodeTree ν} (hsame : SameAnswers source target)
    {list : SelectorList} (hwell : list.WellFormed) (hdepth : list.depth ≤ SelectorList.defaultLimit)
    {selection : Selection ν} (hwithin : selection.Within (· ∈ source.nodes)) :
    selection.answer target list = selection.answer source list := by
  have hanswer := hsame list.toText selection hwithin
  rwa [select_toText target hwell hdepth, select_toText source hwell hdepth, Except.ok.injEq] at hanswer

/-! ## Questions about fallback content -/

section Questions

variable (tree : NodeTree ν)

theorem holdsAt_belowElement {node : ν} (helement : tree.isElement node = true) :
    Query.holdsAt tree belowElement node = (tree.flatParent node).any tree.isElement := by
  have hview (other : ν) : tree.flatView.isElement other = tree.isElement other := rfl
  have hrelated : tree.flatView.related .child node = (tree.flatParent node).toList := rfl
  simp [Query.holdsAt, belowElement, ElementView.acceptsList, ElementView.acceptsComplex,
    ElementView.acceptsCompound, ElementView.acceptsAll, ElementView.acceptsSimple,
    ElementView.hasFeature, ElementView.matchLeftward, Chain.subject, Chain.links, Chain.compoundAt?,
    Chain.first, helement, hview, hrelated]
  cases tree.flatParent node <;> simp

theorem nearest_universal (node : ν) :
    Query.nearest tree (.ofFeature .universal) (some node) =
      (node :: walk tree.flatParent tree.nodes.length node).find? tree.isElement := by
  have hpasses : (fun node => tree.isElement node &&
      tree.flatView.acceptsList node (.ofFeature .universal)) = tree.isElement := by
    funext other
    cases helement : tree.isElement other with
    | true => exact ElementView.acceptsList_ofFeature helement .universal
    | false => rfl
  exact congrArg (node :: walk tree.flatParent tree.nodes.length node).find? hpasses

theorem all_universal (node : ν) :
    Query.all tree (.ofFeature .universal) (some node) = candidates tree (some node) := by
  rw [all_ofFeature, List.filter_eq_self]
  exact fun _ _ => rfl

variable {tree}

/-- What a slot shows is found below it, unless it hosts a shadow root. -/
theorem mem_candidates_of_shows (hlists : tree.ListsNodes)
    (hslots : ∀ slot, tree.isSlot slot = true → slot ∈ tree.nodes) {slot node : ν}
    (hslot : tree.isSlot slot = true) (hroot : tree.shadowRoot slot = none)
    (hpath : ReflTransGen tree.Shows slot node) (hnode : tree.isSlot node = false)
    (helement : tree.isElement node = true) : node ∈ candidates tree (some slot) := by
  have hchild : node ∈ tree.flatChildren slot := by
    rw [mem_flatChildren_iff hslots, unexpanded, hroot]
    refine ⟨hnode, ?_⟩
    rcases hpath.cases_head with rfl | ⟨entry, hshows, hrest⟩
    · rw [hslot] at hnode
      contradiction
    · exact ⟨entry, by simpa [hslot] using hshows.2, hrest⟩
  refine List.mem_filter.mpr ⟨?_, helement⟩
  exact ((flatDescendants_eq_search tree hlists slot).2.2.2 node).mpr (.single hchild)

end Questions

/-! ## What selectors notice -/

namespace GainsText

variable {source target : NodeTree ν} {host added above : ν} {slot : Option ν}
  (hgains : source.GainsText target host added slot) (hsame : SameAnswers source target)
  (hslot : slot = some above) (hroot : source.shadowRoot above = none)

include hgains hslot hroot

/-- Below a slot to which only the new text is assigned there is no element. -/
theorem candidates_slot (hempty : source.assignedNodes above = []) :
    candidates target (some above) = [] := by
  have hunexpanded : target.unexpanded above = [added] := by
    rw [unexpanded, hgains.shadowRoot, hroot, hgains.isSlot, hgains.isSlot_of_eq hslot]
    exact hgains.standsFor_slot hslot hempty
  have hdata : target.isCharacterData added = true := (hgains.isCharacterData_iff added).mpr (Or.inl rfl)
  have hleaf : target.flatChildren added = [] := (hgains.flatChildren_eq_nil hdata).2
  rw [candidates, List.filter_eq_nil_iff]
  intro node hnode
  obtain ⟨child, hchild, hrest⟩ := TransGen.head'_iff.mp
    (((flatDescendants_eq_search target hgains.lists_target above).2.2.2 node).mp hnode)
  rw [Parents, mem_flatChildren_iff fun _ => hgains.mem_nodes_of_isSlot, hunexpanded] at hchild
  obtain ⟨-, entry, hentry, hpath⟩ := hchild
  rw [List.mem_singleton.mp hentry] at hpath
  rcases hpath.cases_head with rfl | ⟨shown, hshows, -⟩
  · rcases hrest.cases_head with rfl | ⟨other, hother, -⟩
    · rw [isElement_eq_false hdata]
      decide
    · rw [Parents, hleaf] at hother
      contradiction
  · exact absurd hshows.1 (Bool.eq_false_iff.mp hgains.not_slot_added)

include hsame

/-- Selectors notice if the slot has shown an element of its own. -/
theorem isElement_eq_false_of_shows (hempty : source.assignedNodes above = []) {node : ν}
    (hpath : ReflTransGen source.Shows above node) (hnode : source.isSlot node = false) :
    source.isElement node = false := by
  rw [Bool.eq_false_iff]
  intro helement
  have hshown := hgains.isSlot_of_eq hslot
  have habove : (Selection.all (some above)).Within (· ∈ source.nodes) := by
    rintro other ⟨⟩
    exact hgains.mem_of_isSlot above hshown
  have hfound := mem_candidates_of_shows hgains.lists_source hgains.mem_of_isSlot hshown hroot hpath
    hnode helement
  have hanswer := hsame.answer_eq wellFormed_universal (Nat.zero_le _) habove
  rw [Selection.answer, Selection.answer, Answer.nodes.injEq, all_universal, all_universal,
    hgains.candidates_slot hslot hroot hempty] at hanswer
  rw [← hanswer] at hfound
  contradiction

/-- Selectors notice if a child of the slot has had an element as its flat parent. -/
theorem isElement_eq_false_of_flatParent {child parent : ν} (hchild : source.parent child = some above)
    (hparent : source.flatParent child = some parent) : source.isElement parent = false := by
  rw [Bool.eq_false_iff]
  intro helement
  have hmem : child ∈ source.nodes := by
    apply hgains.lists_source.mem_of_mem_children above
    rwa [hgains.linked_source.mem_children_iff]
  have hne := hgains.ne_added_of_mem hmem
  have hassigned := hgains.linked_source.assignedSlot_eq_none hchild hroot
  have hlost : target.flatParent child = none := by
    obtain ⟨hnone, houtside⟩ := hgains.slotAbove_child hslot ((hgains.parent child hne).trans hchild)
      ((hgains.assignedSlot child hne).trans hassigned)
    rw [NodeTree.flatParent, leaveSlots_eq, hnone]
    exact houtside
  cases hkind : source.isElement child with
  | true =>
      have hchild : (Selection.holdsAt child).Within (· ∈ source.nodes) := hmem
      have hanswer := hsame.answer_eq wellFormed_belowElement (Nat.zero_le _) hchild
      rw [Selection.answer, Selection.answer, Answer.truth.injEq, holdsAt_belowElement source hkind,
        holdsAt_belowElement target ((hgains.isElement child).trans hkind), hparent, hlost] at hanswer
      simp [helement] at hanswer
  | false =>
      have hchild : (Selection.nearest (some child)).Within (· ∈ source.nodes) := by
        rintro other ⟨⟩
        exact hmem
      have hanswer := hsame.answer_eq wellFormed_universal (Nat.zero_le _) hchild
      obtain ⟨steps, hsteps⟩ := Nat.exists_eq_succ_of_ne_zero
        (Nat.ne_of_gt (List.length_pos_of_mem hmem))
      rw [Selection.answer, Selection.answer, Answer.node.injEq, nearest_universal, nearest_universal,
        walk_of_none hlost, hsteps, walk_of_some hparent] at hanswer
      simp [hgains.isElement, hkind, helement] at hanswer

end GainsText

end FlatTree.NodeTree

namespace FlatTree.Store

open NodeTree Query Relation

variable {store : Store}

/-- The first nameless slot below a shadow root has assigned nodes, or it shows nothing of its own that
selectors could notice. -/
def HidesNothing (store : Store) (root : Nat) : Prop :=
  ∀ slot, store.firstSlot root "" = some slot → store.assignedNodes slot = [] →
    store.toTree.ShowsNothing slot

/-! ## Documents and elements -/

theorem nodeType_document_create {content : Content} (hkind : content.nodeType ≠ .document) {node : Nat}
    (hnode : node < (store.create content).2.size)
    (htype : (store.create content).2.nodeType node = .document) :
    node < store.size ∧ store.nodeType node = .document := by
  rw [nodeType_create] at htype
  split at htype
  · exact absurd htype hkind
  · rename_i hne
    have hsize : (store.create content).2.size = store.size + 1 := by simp [create, size]
    rw [hsize] at hnode
    exact ⟨Nat.lt_of_le_of_ne (Nat.le_of_lt_succ hnode) hne, htype⟩

/-- No edit makes a document. -/
theorem Consistent.nodeType_document_becomes (hconsistent : store.Consistent) {edit : Edit} {next : Store}
    (hnext : store.Becomes edit next) {node : Nat} (hnode : node < next.size)
    (htype : next.nodeType node = .document) : node < store.size ∧ store.nodeType node = .document := by
  cases hnext with
  | created hcontent => exact nodeType_document_create (nodeType_of_content? hcontent).1 hnode htype
  | appended hdone =>
      rw [size_append hdone] at hnode
      rw [hconsistent.nodeType_append hdone] at htype
      exact ⟨hnode, htype⟩
  | attributed hdone =>
      have hsize : next.size = store.size := by
        obtain ⟨element, -, rfl⟩ := of_setAttribute_eq_ok hdone
        simp [update, size]
      rw [nodeType_setAttribute hdone] at htype
      exact ⟨hsize ▸ hnode, htype⟩
  | hosted hdone =>
      obtain ⟨-, -, hsize, -⟩ := of_attachShadow_eq_ok hdone
      rw [nodeType_attachShadow hdone] at htype
      rw [hsize] at hnode
      split at htype
      · contradiction
      · rename_i hne
        exact ⟨Nat.lt_of_le_of_ne (Nat.le_of_lt_succ hnode) hne, htype⟩

/-- No other node than the first one is a document. -/
theorem nodeType_ne_document (edits : List Edit) {node : Nat} (hpos : 0 < node)
    (hnode : node < (ofEdits edits).size) : (ofEdits edits).nodeType node ≠ .document := by
  let OneDocument (store : Store) : Prop :=
    store.Consistent ∧ ∀ node < store.size, store.nodeType node = .document → node = 0
  have hnew : OneDocument new := ⟨consistent_new, fun node hnode _ => Nat.lt_one_iff.mp hnode⟩
  have hall : OneDocument (ofEdits edits) := by
    apply ofEdits_induction hnew
    rintro store edit next ⟨hconsistent, hfirst⟩ hnext
    refine ⟨hconsistent.becomes hnext, fun node hnode htype => ?_⟩
    obtain ⟨hbefore, hdocument⟩ := hconsistent.nodeType_document_becomes hnext hnode htype
    exact hfirst node hbefore hdocument
  exact fun htype => Nat.ne_of_gt hpos (hall.2 node hnode htype)

section Intact

variable (hintact : store.Intact)
  (hdocuments : ∀ node, 0 < node → node < store.size → store.nodeType node ≠ .document)
  (hslots : ∀ slot, store.isSlot slot = true → store.shadowRoot slot = none)
  (hdocument : store.parent 0 = none)

include hdocuments

theorem nodeType_eq_element {node : Nat} (hne : node ≠ 0) (hnode : node < store.size)
    (hroot : store.nodeType node ≠ .shadowRoot) (hdata : ¬ store.toTree.isCharacterData node = true) :
    store.nodeType node = .element := by
  have hkind := hdocuments node (Nat.pos_of_ne_zero hne) hnode
  rw [isCharacterData_toTree_iff, not_or] at hdata
  cases htype : store.nodeType node with
  | element => rfl
  | document => exact absurd htype hkind
  | text => exact absurd htype hdata.1
  | comment => exact absurd htype hdata.2
  | shadowRoot => exact absurd htype hroot

include hintact hdocument

/-- What has a parent and is neither text nor a comment is an element. -/
theorem Intact.nodeType_of_parent {node parent : Nat} (hparent : store.parent node = some parent)
    (hdata : ¬ store.toTree.isCharacterData node = true) : store.nodeType node = .element := by
  apply nodeType_eq_element hdocuments _ (hintact.lt_size_of_parent hparent).1 _ hdata
  · rintro rfl
    rw [hdocument] at hparent
    contradiction
  · intro hroot
    rw [hintact.parent_eq_none node hroot] at hparent
    contradiction

/-- The flat parent of what stands in the place of a slot is an element. -/
theorem Intact.nodeType_of_flatParent {slot child parent : Nat} (hslot : store.isSlot slot = true)
    (hchild : store.parent child = some slot) (hparent : store.toTree.flatParent child = some parent) :
    store.nodeType parent = .element := by
  have hlinked := hintact.linked_toTree
  obtain ⟨top, hpath, hnone, houtside⟩ :=
    (hlinked.flatParent_eq_some_iff fun _ => mem_nodes_of_isSlot).mp hparent
  have htop : store.isSlot top = true := by
    rcases hpath.cases_tail with rfl | ⟨below, -, hstep⟩
    · have hkind : store.toTree.nodeType slot = .element := nodeType_of_isSlot hslot
      have hshown : store.toTree.isSlot slot = true := hslot
      have habove : store.toTree.parent top = some slot := hchild
      simp [parentOutside, habove, hkind, hshown] at houtside
    · exact (hlinked.shows_of_slotAbove hstep).1
  obtain ⟨above, habove⟩ := exists_parent_of_parentOutside houtside
  rw [parentOutside, habove] at houtside
  dsimp only at houtside
  replace habove : store.parent top = some above := habove
  split at houtside
  · exact hintact.nodeType_host parent above ((hintact.shadowRoot_iff parent above).mpr houtside)
  · rename_i hroot
    obtain ⟨-, hsame⟩ := Option.ite_none_left_eq_some.mp houtside
    obtain rfl : above = parent := Option.some.inj hsame
    apply nodeType_eq_element hdocuments _ (hintact.lt_size_of_parent habove).2 hroot
    · intro hdata
      have hmem := (hintact.mem_children_iff above top).mpr habove
      rw [hintact.children_eq_nil above (isCharacterData_toTree_iff.mp hdata)] at hmem
      contradiction
    · rintro rfl
      -- The document stands at the top, so what is below it is in no shadow tree.
      have htree : store.root top = 0 := hintact.root_eq (.single habove) hdocument
      rw [isSlot, enclosingRoot, htree, if_neg hintact.nodeType_document_ne, Option.isSome_none,
        Bool.and_false] at htop
      contradiction

end Intact

/-! ## A text in a host -/

theorem gainsText_ofEdits (edits : List Edit) {host root : Nat}
    (hhosts : (ofEdits edits).shadowRoot host = some root) (text : String) :
    (ofEdits edits).GainsText
      (ofEdits (edits ++ [.createText text, .append host (ofEdits edits).size])) host root := by
  obtain ⟨next, hnext, hgains⟩ := (intact_ofEdits edits).gainsText hhosts text
  have hcreated : ofEdits (edits ++ [.createText text]) = ((ofEdits edits).create (.text text)).2 := by
    rw [ofEdits_concat]
    rfl
  have happended : ofEdits (edits ++ [.createText text, .append host (ofEdits edits).size]) = next := by
    rw [List.append_cons, ofEdits_concat, hcreated, apply, hnext]
    rfl
  rwa [happended]

/-- Whatever edits made the store and whatever a new text consists of, appending it to a host makes it the
last child, and it is assigned to the first nameless slot of the host's shadow tree, behind all nodes that
are assigned there.  If that hides nothing, selectors have the same answers as before about all nodes that
were there, from every context.  Where no slot hosts a shadow root and the document stands at the top, they
have other answers in all other cases. -/
theorem appended_text_unseen_iff (edits : List Edit) {host root : Nat}
    (hhosts : (ofEdits edits).shadowRoot host = some root) (text : String) :
    let store := ofEdits edits
    let next := ofEdits (edits ++ [.createText text, .append host store.size])
    next.children host = store.children host ++ [store.size] ∧
    (∀ slot, next.assignedNodes slot =
      store.assignedNodes slot ++ if store.firstSlot root "" = some slot then [store.size] else []) ∧
    (store.HidesNothing root → SameAnswers store.toTree next.toTree) ∧
    ((∀ slot, store.isSlot slot = true → store.shadowRoot slot = none) → store.parent 0 = none →
      SameAnswers store.toTree next.toTree → store.HidesNothing root) := by
  intro store next
  have hgains : store.GainsText next host root := gainsText_ofEdits edits hhosts text
  have htrees := hgains.gainsText_toTree
  refine ⟨?_, hgains.assignedNodes, ?_, ?_⟩
  · rw [hgains.children, if_pos rfl]
  · intro hnothing selector selection
    refine (htrees.differsInText hnothing ?_).answer selector
    exact fun _ _ hparent => List.mem_range.mpr (hgains.intact.lt_size_of_flatParent hparent).2
  · intro hslots hdocument hsame slot hfirst hempty
    have hslot : store.isSlot slot = true := htrees.isSlot_of_eq hfirst
    have hroot := hslots slot hslot
    have hdocuments : ∀ node, 0 < node → node < store.size → store.nodeType node ≠ .document :=
      fun _ => nodeType_ne_document edits
    constructor
    · intro child hchild
      have hparent := (hgains.intact.mem_children_iff slot child).mp hchild
      rw [Option.eq_none_iff_forall_ne_some]
      intro parent habove
      have hfails := htrees.isElement_eq_false_of_flatParent hsame hfirst hroot hparent habove
      have htype := hgains.intact.nodeType_of_flatParent hdocuments hdocument hslot hparent habove
      exact of_decide_eq_false hfails htype
    · intro node hpath hnode
      have hfails := htrees.isElement_eq_false_of_shows hsame hfirst hroot hempty hpath hnode
      rcases hpath.cases_tail with rfl | ⟨before, -, hshows⟩
      · exact absurd hslot (Bool.eq_false_iff.mp hnode)
      · obtain ⟨parent, hparent⟩ := htrees.linked_source.exists_parent_of_shows hshows
        by_contra hdata
        exact of_decide_eq_false hfails
          (hgains.intact.nodeType_of_parent hdocuments hdocument hparent hdata)

/-- Node 1 has slot 3 in its shadow tree, with node 4 as fallback content. -/
def fallbackHost : List Edit :=
  [.createElement (some htmlNamespace) "div", .append 0 1, .attachShadow 1 .opened,
    .createElement (some htmlNamespace) "slot", .append 2 3,
    .createElement (some htmlNamespace) "p", .append 3 4]

/-- The same with node 5 in place of the fallback content. -/
def filledFallbackHost : List Edit :=
  fallbackHost ++ [.createElement (some htmlNamespace) "b", .append 1 5]

/-- Behind an assigned node a blank is assigned as well, and no selector notices. -/
theorem appended_text_unseen_iff_filledFallbackHost :
    (ofEdits filledFallbackHost).shadowRoot 1 = some 2 ∧
      (ofEdits (filledFallbackHost ++ [.createText " ", .append 1 6])).assignedNodes 3 = [5, 6] ∧
      SameAnswers (ofEdits filledFallbackHost).toTree
        (ofEdits (filledFallbackHost ++ [.createText " ", .append 1 6])).toTree := by
  have hhosts : (ofEdits filledFallbackHost).shadowRoot 1 = some 2 := by decide +kernel
  have hfirst : (ofEdits filledFallbackHost).firstSlot 2 "" = some 3 := by decide +kernel
  have hassigned : (ofEdits filledFallbackHost).assignedNodes 3 = [5] := by decide +kernel
  obtain ⟨-, hnodes, hunseen, -⟩ := appended_text_unseen_iff filledFallbackHost hhosts " "
  refine ⟨hhosts, ?_, hunseen ?_⟩
  · have hthree := hnodes 3
    rw [hassigned, if_pos hfirst] at hthree
    exact hthree
  · intro slot hslot hempty
    rw [hfirst] at hslot
    cases hslot
    rw [hassigned] at hempty
    contradiction

/-- A blank takes the place of the fallback content, and what has matched there matches no longer. -/
theorem blank_hides_fallback_fallbackHost :
    (ofEdits fallbackHost).shadowRoot 1 = some 2 ∧
      (ofEdits (fallbackHost ++ [.createText " ", .append 1 5])).assignedNodes 3 = [5] ∧
      (Question.select "div > p" (.holdsAt 4)).answer (ofEdits fallbackHost).toTree =
        .ok (.truth true) ∧
      (Question.select "div > p" (.holdsAt 4)).answer
          (ofEdits (fallbackHost ++ [.createText " ", .append 1 5])).toTree = .ok (.truth false) := by
  refine ⟨by decide +kernel, by decide +kernel, ?_, ?_⟩
  · decide +kernel
  · decide +kernel

end FlatTree.Store
