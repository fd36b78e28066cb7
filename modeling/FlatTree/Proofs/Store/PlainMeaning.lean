import FlatTree.Proofs.Selector.Meaning
import FlatTree.Proofs.Store.PlainTrees
import FlatTree.Proofs.Store.PreviousElements
import FlatTree.Query.Question

/-!
# Selectors on stores without shadow roots

Read without any flat tree, a selector speaks of the attributes of an element, of its parents, and of its
siblings, which are the elements among the children of its parent.  In a store without shadow roots a query
finds exactly the elements below its context of which the selector holds in this sense, in the order in
which the store lists them.
-/

namespace FlatTree.Store

open Query Relation Selector

/-! ## Meaning -/

section Meaning

variable (store : Store)

/-- The elements among the children of the parent of an element.  Without a parent it is the only one. -/
def elementSiblings (node : Nat) : List Nat :=
  match store.parent node with
  | none => [node]
  | some parent => (store.children parent).filter fun child => store.nodeType child = .element

/-- The element siblings before and behind an element. -/
def Around (node : Nat) (front back : List Nat) : Prop :=
  store.elementSiblings node = front ++ node :: back

def HasFeature (node : Nat) : Feature → Prop
  | .type name => ∃ element, store.element? node = some element ∧
      if element.space = some htmlNamespace then
        Text.sameUpToCase element.name name = true
      else
        element.name = name
  | .universal => True
  | .hasId name => store.attribute? node "id" = some name
  | .hasClass name => ∃ names, store.attribute? node "class" = some names ∧ name ∈ Text.tokens names
  | .hasAttribute test => ∃ actual, store.attribute? node test.name = some actual ∧
      ∀ comparison expected, test.value = some (comparison, expected) → comparison.Says actual expected
  | .nthChild nth => ∃ front back, store.Around node front back ∧ nth.Names (front.length + 1)
  | .nthLastChild nth => ∃ front back, store.Around node front back ∧ nth.Names (back.length + 1)
  | .firstChild => ∃ back, store.Around node [] back
  | .lastChild => ∃ front, store.Around node front []
  | .onlyChild => store.Around node [] []

/-- What a combinator says of the element on its left, seen from the element on its right. -/
def Relates : Combinator → (left right : Nat) → Prop
  | .descendant, left, right => TransGen (Leads store.parent) right left
  | .child, left, right => store.parent right = some left
  | .adjacent, left, right => ∃ front back, store.Around right (front ++ [left]) back
  | .general, left, right => ∃ front back, store.Around right front back ∧ left ∈ front

def Meets (compound : Compound) (node : Nat) : Prop :=
  store.nodeType node = .element ∧ AllSay (store.HasFeature node) compound

/-- Some alternative is met by elements of which the last one is the given node. -/
def Satisfies (list : SelectorList) (node : Nat) : Prop :=
  ∃ chain ∈ list, ∃ start, chain.Spans store.Meets store.Relates start node

end Meaning

variable {store : Store}

/-! ## Siblings of an element -/

/-- The view of the flat tree knows what stands around an element. -/
structure Surrounds (store : Store) (node : Nat) (front back : List Nat) : Prop where
  around_iff : ∀ others behind, store.Around node others behind ↔ others = front ∧ behind = back
  rankOf : store.toTree.flatView.rankOf node = ⟨front.length + 1, front.length + 1 + back.length⟩
  previous : store.toTree.flatPreviousElement node = front.getLast?
  transGen_iff : ∀ other, TransGen (Leads store.toTree.flatPreviousElement) node other ↔ other ∈ front

section Plain

variable (hintact : store.Intact) (hnone : ∀ node, store.shadowRoot node = none)

include hintact hnone

theorem Intact.surrounds_of_parent_eq_none {node : Nat} (hparent : store.parent node = none) :
    store.Surrounds node [] [] := by
  have hflat : store.toTree.flatParent node = none := by rw [hintact.flatParent_eq hnone, hparent]
  have hprevious : store.toTree.flatPreviousElement node = none := by
    rw [NodeTree.flatPreviousElement, hflat, Option.bind_none]
  refine ⟨?_, ?_, hprevious, ?_⟩
  · intro others behind
    rw [Around, elementSiblings, hparent]
    constructor
    · intro hsplit
      cases others with
      | nil => exact ⟨rfl, (List.cons.inj hsplit).2.symm⟩
      | cons first others => simp at hsplit
    · rintro ⟨rfl, rfl⟩
      rfl
  · rw [ElementView.rankOf, NodeTree.flatView_rank, NodeTree.flatRank, hflat]
    rfl
  · intro other
    refine iff_of_false ?_ List.not_mem_nil
    intro hpath
    obtain ⟨next, hnext, -⟩ := TransGen.head'_iff.mp hpath
    rw [Leads, hprevious] at hnext
    contradiction

theorem Intact.surrounds_of_split {node parent : Nat} (hparent : store.parent node = some parent)
    {front back : List Nat} (hsplit : store.toTree.flatElements parent = front ++ node :: back) :
    store.Surrounds node front back := by
  have hflat : store.toTree.flatParent node = some parent := by rw [hintact.flatParent_eq hnone, hparent]
  have hsiblings : store.elementSiblings node = store.toTree.flatElements parent := by
    rw [elementSiblings, hparent, NodeTree.flatElements, hintact.flatChildren_eq hnone]
    rfl
  have hnodup : (store.toTree.flatElements parent).Nodup := NodeTree.nodup_flatElements parent
  rw [hsplit, List.nodup_middle, List.nodup_cons, List.mem_append, not_or] at hnodup
  obtain ⟨⟨hfront, hback⟩, -⟩ := hnodup
  refine ⟨?_, ?_, ?_, ?_⟩
  · intro others behind
    rw [Around, hsiblings, hsplit, List.append_cons_inj_of_notMem hfront hback]
    simp only [eq_comm, true_and]
  · rw [ElementView.rankOf, NodeTree.flatView_rank, NodeTree.flatRank_eq hflat hsplit]
    rfl
  · exact NodeTree.flatPreviousElement_eq hflat hsplit
  · exact (hintact.siblingsAgree fun slot _ => hnone slot).transGen_iff hflat hsplit

theorem Intact.exists_surrounds {node : Nat} (helement : store.nodeType node = .element) :
    ∃ front back, store.Surrounds node front back := by
  cases hparent : store.parent node with
  | none => exact ⟨[], [], hintact.surrounds_of_parent_eq_none hnone hparent⟩
  | some parent =>
      have hmem : node ∈ store.toTree.flatElements parent := by
        rw [NodeTree.flatElements, hintact.flatChildren_eq hnone]
        exact List.mem_filter.mpr ⟨(hintact.mem_children_iff parent node).mpr hparent,
          decide_eq_true helement⟩
      obtain ⟨front, back, hsplit⟩ := List.append_of_mem hmem
      exact ⟨front, back, hintact.surrounds_of_split hnone hparent hsplit⟩

omit hintact hnone in
theorem hasType_iff {node : Nat} (helement : store.nodeType node = .element) (name : String) :
    store.toTree.flatView.hasType node name = true ↔ store.HasFeature node (.type name) := by
  obtain ⟨element, hstored⟩ : ∃ element, store.element? node = some element := by
    rw [← Option.isSome_iff_exists, isSome_element?, helement]
    rfl
  have hspace : store.toTree.space node = element.space := by
    change (store.element? node).bind Element.space = _
    rw [hstored, Option.bind_some]
  have hhtml : store.toTree.flatView.isHtml node = decide (element.space = some htmlNamespace) := by
    change decide (store.toTree.space node = _) = _
    rw [hspace]
  have hname : store.toTree.flatView.localName node = element.name := by
    change ((store.element? node).map Element.name).getD "" = _
    rw [hstored, Option.map_some, Option.getD_some]
  rw [ElementView.hasType, hhtml, hname, HasFeature]
  simp only [hstored, Option.some.injEq, exists_eq_left', decide_eq_true_eq]
  split
  · rfl
  · exact decide_eq_true_iff

omit hintact hnone in
theorem Surrounds.hasFeature_iff {node : Nat} {front back : List Nat}
    (hsurrounds : store.Surrounds node front back) (helement : store.nodeType node = .element)
    (feature : Feature) :
    store.toTree.flatView.hasFeature node feature = true ↔ store.HasFeature node feature := by
  have hrank := hsurrounds.rankOf
  have haround := hsurrounds.around_iff
  cases feature with
  | type name => exact hasType_iff helement name
  | universal => exact iff_of_true rfl trivial
  | hasId name => exact decide_eq_true_iff
  | hasClass name =>
      change (store.attribute? node "class").any _ = true ↔ _
      rw [HasFeature, Option.any_eq_true]
      simp only [List.contains_iff_mem]
  | hasAttribute test =>
      have hactual : store.toTree.flatView.attributeValue node test.name =
          store.attribute? node test.name := rfl
      rw [ElementView.hasFeature, ElementView.passes, HasFeature, hactual]
      cases store.attribute? node test.name with
      | none => simp
      | some actual => simp [Comparison.holds_iff_says, Option.all_eq_true]
  | nthChild nth =>
      rw [ElementView.hasFeature, hrank, Nth.selects_iff_names]
      simp [HasFeature, haround]
  | nthLastChild nth =>
      rw [ElementView.hasFeature, hrank, Nth.selects_iff_names]
      simp [HasFeature, haround]
  | firstChild =>
      rw [ElementView.hasFeature, hrank]
      simp [HasFeature, haround, eq_comm]
  | lastChild =>
      rw [ElementView.hasFeature, hrank]
      simp [HasFeature, haround, eq_comm]
  | onlyChild =>
      have hcount : front.length + 1 + back.length = 1 ↔ [] = front ∧ [] = back := by
        rw [List.nil_eq, List.nil_eq, ← List.length_eq_zero_iff, ← List.length_eq_zero_iff]
        omega
      rw [ElementView.hasFeature, hrank, HasFeature, haround, decide_eq_true_iff, hcount]

theorem Intact.hasFeature_eq {node : Nat} (helement : store.nodeType node = .element) :
    (store.toTree.flatView.hasFeature node · = true) = store.HasFeature node := by
  obtain ⟨front, back, hsurrounds⟩ := hintact.exists_surrounds hnone helement
  ext feature
  exact hsurrounds.hasFeature_iff helement feature

theorem Intact.acceptsCompound_iff_meets (compound : Compound) (node : Nat) :
    store.toTree.flatView.acceptsCompound node compound = true ↔ store.Meets compound node := by
  rw [ElementView.acceptsCompound_iff_says, Meets]
  change decide (store.nodeType node = .element) = true ∧ _ ↔ _
  rw [decide_eq_true_iff]
  apply and_congr_right
  intro helement
  rw [hintact.hasFeature_eq hnone helement]

theorem Intact.joins_iff_relates {combinator : Combinator} {left right : Nat}
    (helement : store.nodeType right = .element) :
    store.toTree.flatView.Joins combinator left right ↔ store.Relates combinator left right := by
  obtain ⟨front, back, hsurrounds⟩ := hintact.exists_surrounds hnone helement
  have hparent : store.toTree.flatView.parent = store.parent := hintact.flatParent_eq hnone
  cases combinator with
  | descendant => rw [ElementView.Joins, Relates, hparent]
  | child => rw [ElementView.Joins, Relates, hparent]
  | adjacent =>
      rw [ElementView.Joins, Relates, NodeTree.flatView_previous, hsurrounds.previous,
        List.getLast?_eq_some_iff]
      simp only [hsurrounds.around_iff, eq_comm (b := front), exists_and_left, exists_eq, and_true]
  | general =>
      rw [ElementView.Joins, Relates, NodeTree.flatView_previous, hsurrounds.transGen_iff]
      simp [hsurrounds.around_iff]

theorem Intact.reaches : store.toTree.flatView.Reaches where
  parent := by
    intro node
    have hends := hintact.endsWithin_flatParent (hintact.acyclic hnone) node
    have hreach : store.toTree.flatView.reach node = store.size := List.length_range
    rw [hreach]
    exact hends.mono (Nat.sub_le _ _)
  previous := by
    intro node
    rw [NodeTree.flatView_previous]
    exact (hintact.siblingsAgree fun slot _ => hnone slot).endsWithin_flatPreviousElement (hintact.forest hnone).mem_nodes node

theorem Intact.acceptsList_iff_satisfies (list : SelectorList) (node : Nat) :
    store.toTree.flatView.acceptsList node list = true ↔ store.Satisfies list node := by
  have hmeets := hintact.acceptsCompound_iff_meets hnone
  have hrelates {combinator : Combinator} {left right : Nat} {compound : Compound}
      (hright : store.Meets compound right) :
      store.toTree.flatView.Joins combinator left right ↔ store.Relates combinator left right :=
    hintact.joins_iff_relates hnone hright.1
  rw [ElementView.acceptsList, List.any_eq_true, Satisfies]
  apply exists_congr
  intro chain
  apply and_congr_right
  intro _
  rw [ElementView.acceptsComplex_iff_spans (hintact.reaches hnone)]
  apply exists_congr
  intro start
  constructor
  · apply Chain.Spans.imp
    · exact fun compound node => (hmeets compound node).mp
    · exact fun _ _ _ compound hright => (hrelates ((hmeets compound _).mp hright)).mp
  · apply Chain.Spans.imp
    · exact fun compound node => (hmeets compound node).mpr
    · exact fun _ _ _ _ hright => (hrelates hright).mpr

open Classical in
theorem Intact.all_eq_filter (list : SelectorList) (context : Option Nat) :
    all store.toTree list context =
      ((store.descendants (context.getD 0)).tail.filter fun node => store.nodeType node = .element).filter
        fun node => store.Satisfies list node := by
  have haccepts : (fun node => store.toTree.flatView.acceptsList node list) =
      fun node => decide (store.Satisfies list node) := by
    funext node
    rw [Bool.eq_iff_iff, hintact.acceptsList_iff_satisfies hnone, decide_eq_true_iff]
  calc
    all store.toTree list context
      = (candidates store.toTree context).filter fun node =>
          store.toTree.flatView.acceptsList node list := rfl
    _ = (candidates store.toTree context).filter fun node => decide (store.Satisfies list node) := by
        rw [haccepts]
    _ = ((store.descendants (context.getD 0)).tail.filter fun node =>
          store.nodeType node = .element).filter fun node => decide (store.Satisfies list node) := by
        rw [candidates, hintact.flatDescendants_eq hnone]
        rfl

end Plain

open Classical in
/-- As long as all attempts to attach a shadow root fail, parents and children in the flat tree are those of
the store.  Each selector that parses then finds the elements listed below the context of which it holds,
read over parents and element siblings, in the order of the list.  The list puts every node before its
children, each with all that is below it, and the positions named by `an+b` are the values of the formula,
as far as no number of 64 bits can overflow. -/
theorem answer_plain (edits : List Edit)
    (hplain : ∀ front edit, front ++ [edit] <+: edits → edit.AttachesShadow →
      ∃ fault, ((ofEdits front).apply edit).1 = .error fault) :
    let store := ofEdits edits
    (∀ node, store.toTree.flatParent node = store.parent node) ∧
    (∀ node, store.toTree.flatChildren node = store.children node) ∧
    (∀ selector list, SelectorList.parse selector = .ok list → ∀ context : Option Nat,
      (Question.select selector (.all context)).answer store.toTree =
        .ok (.nodes (((store.descendants (context.getD 0)).tail.filter fun node =>
          store.nodeType node = .element).filter fun node => store.Satisfies list node))) ∧
    (∀ node, store.descendants node = node :: (store.children node).flatMap store.descendants) ∧
    ∀ (nth : Nth) (position : Nat), position < 2 ^ 63 - 2 ^ 31 →
      (nth.Names position ↔ ∃ k : Nat, (position : Int) = nth.step.toInt * k + nth.offset.toInt) := by
  intro store
  have hnone := (shadowRoot_eq_none_iff edits).mpr hplain
  have hintact : store.Intact := intact_ofEdits edits
  refine ⟨congrFun (hintact.flatParent_eq hnone), congrFun (hintact.flatChildren_eq hnone), ?_,
    hintact.descendants_eq, fun nth _ => nth.names_iff_of_lt⟩
  intro selector list hparse context
  rw [Question.answer, hparse, ← hintact.all_eq_filter hnone]
  rfl

/-- A `slot` element, a text and a paragraph that asks for the slot, all in one `div`.  The text does not
take a shadow root. -/
def unusedSlot : List Edit :=
  [.createElement (some htmlNamespace) "div", .append 0 1,
    .createElement (some htmlNamespace) "slot", .setAttribute 2 "name" "a", .append 1 2,
    .createText "text", .append 1 3, .attachShadow 3 .opened,
    .createElement (some htmlNamespace) "p", .setAttribute 4 "slot" "a", .append 1 4]

open Classical in
theorem answer_plain_unusedSlot :
    (∀ front edit, front ++ [edit] <+: unusedSlot → edit.AttachesShadow →
        ∃ fault, ((ofEdits front).apply edit).1 = .error fault) ∧
      (ofEdits unusedSlot).toTree.flatParent 4 = some 1 ∧
      (ofEdits unusedSlot).toTree.flatChildren 1 = [2, 3, 4] ∧
      ∃ found, (Question.select "slot + p:nth-child(2)" (.all none)).answer (ofEdits unusedSlot).toTree =
        .ok (.nodes found) ∧ 4 ∈ found := by
  have hbounded : ∀ node ∈ List.range (ofEdits unusedSlot).size,
      (ofEdits unusedSlot).shadowRoot node = none := by decide +kernel
  have hnone : ∀ node, (ofEdits unusedSlot).shadowRoot node = none := by
    intro node
    cases hroot : (ofEdits unusedSlot).shadowRoot node with
    | none => rfl
    | some root =>
        have htype := (intact_ofEdits unusedSlot).nodeType_host node root hroot
        have hlt : node < (ofEdits unusedSlot).size := lt_size_of_nodeType (by rw [htype]; nofun)
        rw [hbounded node (List.mem_range.mpr hlt)] at hroot
        contradiction
  have hplain := (shadowRoot_eq_none_iff unusedSlot).mp hnone
  obtain ⟨hparent, hchildren, hanswer, -⟩ := answer_plain unusedSlot hplain
  have hparse : SelectorList.parse "slot + p:nth-child(2)" =
      .ok [.link [.feature (.type "slot")] .adjacent
        (.last [.feature (.type "p"), .feature (.nthChild ⟨0, 2⟩)])] := by
    decide +kernel
  refine ⟨hplain, hparent 4, hchildren 1, _, hanswer _ _ hparse none, ?_⟩
  rw [List.mem_filter, List.mem_filter]
  refine ⟨⟨by decide +kernel, by decide +kernel⟩, ?_⟩
  rw [decide_eq_true_iff, ← (intact_ofEdits unusedSlot).acceptsList_iff_satisfies hnone]
  decide +kernel

end FlatTree.Store
