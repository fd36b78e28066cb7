import FlatTree.Proofs.Selector.Meaning
import FlatTree.Proofs.Selector.ParsedForms
import FlatTree.Proofs.Store.Integrity
import FlatTree.Query.Question

/-!
# Lookups and selectors

Elements are looked up by their classes, tag, identifier or name without a selector.  Each such lookup
finds what a selector finds that asks for the same, written and read back, whatever characters the text
has.  A lookup by tag folds the letter case of what it looks for, and a type selector that of both names;
the two agree because stores keep the names of HTML elements in lower case.
-/

namespace FlatTree

theorem Text.ne_empty_of_mem_tokens {text name : String} (hmem : name ∈ tokens text) : name ≠ "" := by
  obtain ⟨piece, hpiece, rfl⟩ := List.mem_map.mp hmem
  have hsome := (List.mem_filter.mp hpiece).2
  rw [Bool.not_eq_true', List.isEmpty_eq_false_iff] at hsome
  simpa using hsome

namespace Selector.SelectorList

/-! ## Written forms of lookups -/

theorem wellFormed_ofFeature {feature : Feature} (hwell : feature.WellFormed) :
    (ofFeature feature).WellFormed := by
  simpa [ofFeature, WellFormed, wellFormedAlternatives, wellFormedChain, wellFormedSimples,
    wellFormedSimple] using hwell

theorem wellFormed_ofClasses {names : List String} (hnames : names ≠ [])
    (hname : ∀ name ∈ names, name ≠ "") : (ofClasses names).WellFormed := by
  obtain ⟨first, others, rfl⟩ := List.exists_cons_of_ne_nil hnames
  have hsimples : wellFormedSimples
      ((first :: others).map fun name => .feature (.hasClass name)) := by
    rw [wellFormedSimples_iff]
    intro simple hsimple
    obtain ⟨name, hmem, rfl⟩ := List.mem_map.mp hsimple
    exact hname name hmem
  have hlater : ∀ simple ∈ others.map fun name => Simple.feature (.hasClass name),
      ¬ simple.OnlyFirst := by
    intro simple hsimple
    obtain ⟨name, -, rfl⟩ := List.mem_map.mp hsimple
    exact id
  exact ⟨List.cons_ne_nil _ _, ⟨List.cons_ne_nil _ _, hlater, hsimples⟩, trivial⟩

theorem depth_ofClasses (names : List String) : (ofClasses names).depth = 0 := by
  cases names with
  | nil => rfl
  | cons first others =>
      have hsimples : depthSimples
          ((first :: others).map fun name => .feature (.hasClass name)) ≤ 0 := by
        rw [depthSimples_le_iff]
        intro simple hsimple
        obtain ⟨name, -, rfl⟩ := List.mem_map.mp hsimple
        exact Nat.le_refl 0
      exact Nat.le_zero.mp (Nat.max_le.mpr ⟨hsimples, Nat.le_refl 0⟩)

theorem parse_toText {list : SelectorList} (hwell : list.WellFormed)
    (hdepth : list.depth ≤ defaultLimit) : parse list.toText = .ok list := by
  have hlimit : min defaultLimit greatestLimit = defaultLimit := by decide
  rw [parse, parseWithin, toText, String.toList_ofList, hlimit,
    ofChars_renderAlternatives hwell hdepth]
  rfl

end Selector.SelectorList

namespace Selector.ElementView

variable {ν : Type} (view : ElementView ν)

/-! ## What one feature accepts -/

/-- Where the names of HTML elements are in lower case, only the name that is asked for is folded. -/
theorem hasType_of_not_isUpper {element : ν}
    (hlower : view.isHtml element = true → ∀ c ∈ (view.localName element).toList, c.isUpper = false)
    (name : String) :
    view.hasType element name = decide (view.localName element =
      if view.isHtml element = true then Text.lowered name else name) := by
  rw [hasType]
  by_cases hhtml : view.isHtml element = true
  · rw [if_pos hhtml, if_pos hhtml, Text.sameUpToCase, Text.asciiLower_of_not_isUpper (hlower hhtml),
      decide_eq_decide, ← String.toList_inj, Text.lowered, String.toList_ofList]
  · rw [if_neg hhtml, if_neg hhtml]

theorem passes_equals (element : ν) (name value : String) :
    view.passes element ⟨name, some (.equals, value)⟩ =
      decide (view.attributeValue element name = some value) := by
  rw [passes]
  cases view.attributeValue element name with
  | none => rfl
  | some actual => simp [Comparison.holds]

end Selector.ElementView

namespace Query

open Selector

variable {ν : Type} [DecidableEq ν] (tree : NodeTree ν)

/-! ## Lookups in any tree -/

theorem select_toText {list : SelectorList} (hwell : list.WellFormed)
    (hdepth : list.depth ≤ SelectorList.defaultLimit) (selection : Selection ν) :
    (Question.select list.toText selection).answer tree = .ok (selection.answer tree list) := by
  rw [Question.answer, SelectorList.parse_toText hwell hdepth]
  rfl

theorem isElement_of_mem_candidates {context : Option ν} {element : ν}
    (hmem : element ∈ candidates tree context) : tree.isElement element = true :=
  (List.mem_filter.mp hmem).2

theorem all_ofFeature (feature : Feature) (context : Option ν) :
    all tree (.ofFeature feature) context =
      (candidates tree context).filter fun element => tree.flatView.hasFeature element feature := by
  apply List.filter_congr
  intro element hmem
  exact ElementView.acceptsList_ofFeature (isElement_of_mem_candidates tree hmem) feature

theorem first_ofFeature (feature : Feature) (context : Option ν) :
    first tree (.ofFeature feature) context =
      (candidates tree context).find? fun element => tree.flatView.hasFeature element feature := by
  apply List.find?_congr
  intro element hmem
  exact ElementView.acceptsList_ofFeature (isElement_of_mem_candidates tree hmem) feature

theorem byTag_eq_all {name : String} (hname : name ≠ "*")
    (hlower : ∀ node, tree.isHtmlElement node = true →
      ∀ c ∈ (tree.localName node).toList, c.isUpper = false) (context : Option ν) :
    byTag tree name context = all tree (.ofFeature (.type name)) context := by
  calc
    byTag tree name context = (candidates tree context).filter fun element =>
        tree.localName element = if tree.isHtmlElement element then Text.lowered name else name :=
      if_neg hname
    _ = (candidates tree context).filter fun element => tree.flatView.hasType element name := by
      apply List.filter_congr
      intro element _
      exact (tree.flatView.hasType_of_not_isUpper (hlower element) name).symm
    _ = all tree (.ofFeature (.type name)) context := (all_ofFeature tree (.type name) context).symm

theorem byId_eq_first {name : String} (hname : name ≠ "") (context : Option ν) :
    byId tree name context = first tree (.ofFeature (.hasId name)) context := by
  rw [byId, if_neg hname, first_ofFeature]
  rfl

theorem byName_eq_all (value : String) (context : Option ν) :
    byName tree value context =
      all tree (.ofFeature (.hasAttribute ⟨"name", some (.equals, value)⟩)) context := by
  rw [byName, all_ofFeature]
  apply List.filter_congr
  intro element _
  exact (tree.flatView.passes_equals element "name" value).symm

end Query

namespace Store

open Query Selector

/-! ## Lookups in a store -/

/-- The names of HTML elements stay in lower case when a store is seen as a tree. -/
theorem Intact.localName_lower {store : Store} (hintact : store.Intact) {node : Nat}
    (hhtml : store.toTree.isHtmlElement node = true) :
    ∀ c ∈ (store.toTree.localName node).toList, c.isUpper = false := by
  rw [NodeTree.isHtmlElement, decide_eq_true_eq] at hhtml
  obtain ⟨element, helement, hspace⟩ := Option.bind_eq_some_iff.mp hhtml
  have hname : store.toTree.localName node = element.name := by
    simp [toTree, helement]
  rw [hname]
  exact (hintact.wellFormed node element helement).name_lower hspace

/-- Whatever edits made the store, a lookup answers as the selector does that asks for the same in its
written form: classes for a text that names some, a tag that is neither empty nor `*`, an identifier that
is not empty, and any value of the `name` attribute. -/
theorem lookups_agree_with_selectors (edits : List Edit) (context : Option Nat) :
    let tree := (ofEdits edits).toTree
    (∀ names, Text.tokens names ≠ [] →
      (Question.find (.byClass names context)).answer tree =
        (Question.select (SelectorList.ofClasses (Text.tokens names)).toText (.all context)).answer
          tree) ∧
    (∀ name, name ≠ "" → name ≠ "*" →
      (Question.find (.byTag name context)).answer tree =
        (Question.select (SelectorList.ofFeature (.type name)).toText (.all context)).answer tree) ∧
    (∀ name, name ≠ "" →
      (Question.find (.byId name context)).answer tree =
        (Question.select (SelectorList.ofFeature (.hasId name)).toText (.first context)).answer tree) ∧
    ∀ value, (Question.find (.byName value context)).answer tree =
      (Question.select
        (SelectorList.ofFeature (.hasAttribute ⟨"name", some (.equals, value)⟩)).toText
        (.all context)).answer tree := by
  intro tree
  have hfeature {feature : Feature} (hwell : feature.WellFormed) (selection : Selection Nat) :
      (Question.select (SelectorList.ofFeature feature).toText selection).answer tree =
        .ok (selection.answer tree (.ofFeature feature)) :=
    select_toText tree (SelectorList.wellFormed_ofFeature hwell) (Nat.zero_le _) selection
  refine ⟨?_, ?_, ?_, ?_⟩
  · intro names hnames
    have hwell := SelectorList.wellFormed_ofClasses hnames fun name => Text.ne_empty_of_mem_tokens
    rw [select_toText tree hwell (by rw [SelectorList.depth_ofClasses]; exact Nat.zero_le _)]
    rfl
  · intro name hname hstar
    have hwell : (Feature.type name).WellFormed := hname
    rw [hfeature hwell, Question.answer, Lookup.answer, byTag_eq_all tree hstar
      fun _ => (intact_ofEdits edits).localName_lower]
    rfl
  · intro name hname
    have hwell : (Feature.hasId name).WellFormed := hname
    rw [hfeature hwell, Question.answer, Lookup.answer, byId_eq_first tree hname]
    rfl
  · intro value
    have hwell : (Feature.hasAttribute ⟨"name", some (.equals, value)⟩).WellFormed := by
      simp [Feature.WellFormed]
    rw [hfeature hwell, Question.answer, Lookup.answer, byName_eq_all tree value]
    rfl

/-- An HTML element named in upper case, with classes and an identifier that must be escaped, and a
foreign element of mixed case. -/
def oddlyNamed : List Edit :=
  [.createElement (some htmlNamespace) "DIV", .setAttribute 1 "CLASS" " 1st\t.\" ",
    .setAttribute 1 "id" "a\\ b", .setAttribute 1 "name" "", .append 0 1,
    .createElement (some "http://www.w3.org/2000/svg") "clipPath", .append 1 2]

theorem candidates_oddlyNamed : candidates (ofEdits oddlyNamed).toTree none = [1, 2] := by
  have hdocument : (ofEdits oddlyNamed).toTree.flatChildren 0 = [1] := by decide +kernel
  have houter : (ofEdits oddlyNamed).toTree.flatChildren 1 = [2] := by decide +kernel
  have hinner : (ofEdits oddlyNamed).toTree.flatChildren 2 = [] := by decide +kernel
  have hnodes : (ofEdits oddlyNamed).toTree.nodes = [0, 1, 2] := by decide +kernel
  have hbelow : (ofEdits oddlyNamed).toTree.flatDescendants 0 = [1, 2] := by
    simp [NodeTree.flatDescendants, NodeTree.listBelow, NodeTree.without, hdocument, houter, hinner,
      hnodes]
  change List.filter _ ((ofEdits oddlyNamed).toTree.flatDescendants 0) = [1, 2]
  rw [hbelow]
  decide +kernel

theorem lookups_agree_with_selectors_oddlyNamed :
    let tree := (ofEdits oddlyNamed).toTree
    (Text.tokens ".\" 1st" ≠ [] ∧
      (Question.select (SelectorList.ofClasses (Text.tokens ".\" 1st")).toText (.all none)).answer tree =
        .ok (.nodes [1])) ∧
    (Question.select (SelectorList.ofFeature (.type "dIv")).toText (.all none)).answer tree =
      .ok (.nodes [1]) ∧
    (Question.select (SelectorList.ofFeature (.type "clippath")).toText (.all none)).answer tree =
      .ok (.nodes []) ∧
    (Question.select (SelectorList.ofFeature (.hasId "a\\ b")).toText (.first none)).answer tree =
      .ok (.node (some 1)) ∧
    (Question.select (SelectorList.ofFeature (.hasAttribute ⟨"name", some (.equals, "")⟩)).toText
      (.all none)).answer tree = .ok (.nodes [1]) := by
  obtain ⟨hclass, htag, hid, hname⟩ := lookups_agree_with_selectors oddlyNamed none
  have hnames : Text.tokens ".\" 1st" ≠ [] := by decide +kernel
  refine ⟨⟨hnames, ?_⟩, ?_, ?_, ?_, ?_⟩
  · rw [← hclass ".\" 1st" hnames, Question.answer, Lookup.answer, byClass, all, candidates_oddlyNamed]
    decide +kernel
  · rw [← htag "dIv" (by decide) (by decide), Question.answer, Lookup.answer, byTag,
      candidates_oddlyNamed]
    decide +kernel
  · rw [← htag "clippath" (by decide) (by decide), Question.answer, Lookup.answer, byTag,
      candidates_oddlyNamed]
    decide +kernel
  · rw [← hid "a\\ b" (by decide), Question.answer, Lookup.answer, byId, candidates_oddlyNamed]
    decide +kernel
  · rw [← hname "", Question.answer, Lookup.answer, byName, candidates_oddlyNamed]
    decide +kernel

end Store

end FlatTree
