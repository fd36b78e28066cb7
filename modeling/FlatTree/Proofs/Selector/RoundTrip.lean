import FlatTree.Proofs.Selector.SpelledLists
import FlatTree.Selector.Printer

/-!
# Reading written selector lists

The written form of a well-formed selector list is one of its spellings, so it reads back as the list at
every limit that its depth does not exceed.
-/

namespace FlatTree.Selector

theorem blanks_space : Blanks [' '] := by
  intro c hc
  rw [List.mem_singleton.mp hc]
  decide

/-! ## Names, values and attributes -/

theorem spellsChars_flatMap {plain escapable : Char → Prop} {render : Char → List Char}
    (hrender : ∀ c, SpellsChar plain escapable c (render c)) (value : List Char) :
    SpellsChars plain escapable value (value.flatMap render) := by
  induction value with
  | nil => exact .nil
  | cons c value ih =>
      rw [List.flatMap_cons]
      exact .cons (hrender c) ih

theorem spellsChar_renderInner (c : Char) :
    SpellsChar (isNamePart · = true) (fun _ => True) c (renderInner c) := by
  rw [renderInner]
  split
  · rename_i hpart
    exact .plain hpart
  · rename_i hpart
    exact .escaped (hexValue_eq_none (Bool.eq_false_iff.mpr hpart)) trivial

/-- A digit is written by its code point. -/
theorem spellsChar_digit {c : Char} (hdigit : c.isDigit = true) (plain escapable : Char → Prop) :
    SpellsChar plain escapable c ['\\', '3', c, ' '] := by
  have hhex : hexValue c = some (c.toNat - 48) := by
    simp [hexValue, hdigit]
  have hthree : hexValue '3' = some 3 := by decide
  have hvalue : codeValue ['3', c] = c.toNat := by
    rw [isDigit_iff_toNat] at hdigit
    simp only [codeValue, List.filterMap_cons, List.filterMap_nil, hhex, hthree, List.foldl_cons,
      List.foldl_nil]
    omega
  apply @SpellsChar.code _ _ c ['3', c] ' '
  · exact List.cons_ne_nil _ _
  · exact Nat.le_add_left 2 4
  · simp [hhex, hthree]
  · rw [hvalue, charOfCode_toNat]
  · decide

theorem spellsIdentifier_renderIdentifier (name : List Char) :
    SpellsIdentifier name (renderIdentifier name) := by
  cases name with
  | nil => exact ⟨.nil, by intro c hc; cases hc⟩
  | cons c name =>
      have hrest : SpellsName name (name.flatMap renderInner) :=
        spellsChars_flatMap spellsChar_renderInner name
      rw [renderIdentifier]
      split
      · rename_i hdigit
        refine ⟨.cons (spellsChar_digit hdigit _ _) hrest, ?_⟩
        intro first hfirst
        cases hfirst
        decide
      · rename_i hdigit
        refine ⟨.cons (spellsChar_renderInner c) hrest, ?_⟩
        intro first hfirst
        rw [renderInner] at hfirst
        split at hfirst
        · cases hfirst
          exact Bool.eq_false_iff.mpr hdigit
        · cases hfirst
          decide

theorem spellsValue_renderString (value : List Char) : SpellsValue value (renderString value) := by
  apply SpellsValue.quoted (.inl rfl)
  apply spellsChars_flatMap
  intro c
  split
  · rename_i hescaped
    rw [Bool.or_eq_true, decide_eq_true_eq, decide_eq_true_eq] at hescaped
    rcases hescaped with rfl | rfl
    all_goals exact .escaped (by decide) (by decide)
  · rename_i hplain
    rw [Bool.or_eq_true, decide_eq_true_eq, decide_eq_true_eq, not_or] at hplain
    exact .plain hplain

theorem spellsTest_render {test : AttributeTest} (hupper : ∀ c ∈ test.name.toList, c.isUpper = false) :
    SpellsTest test.name test.value test.render := by
  obtain ⟨name, value⟩ := test
  have hname : SpellsAttributeName name (renderIdentifier name.toList) := by
    refine ⟨name.toList, ?_, (spellsIdentifier_renderIdentifier name.toList).spellsName⟩
    rw [Text.asciiLower_of_not_isUpper hupper, String.ofList_toList]
  cases value with
  | none =>
      have hspelled := SpellsTest.present blanks_nil hname blanks_nil
      simpa [AttributeTest.render] using hspelled
  | some expected =>
      obtain ⟨comparison, value⟩ := expected
      have hspelled := @SpellsTest.compared _ comparison _ _ _ _ _ _ _ blanks_nil hname blanks_nil blanks_nil
        (spellsValue_renderString value.toList) blanks_nil
      simpa [AttributeTest.render] using hspelled

/-! ## Selectors -/

/-- The characters of keywords. -/
def isKeywordMark (c : Char) : Bool :=
  c.isLower || c = '-'

theorem isNamePart_of_isKeywordMark {c : Char} (hmark : isKeywordMark c = true) :
    isNamePart c = true ∧ c.isUpper = false ∧ c.isDigit = false := by
  rw [isKeywordMark, Bool.or_eq_true, decide_eq_true_eq] at hmark
  rcases hmark with hlower | rfl
  · have hpart : isNamePart c = true := by
      simp [isNamePart, Char.isAlphanum, Char.isAlpha, hlower]
    rw [isLower_iff_toNat] at hlower
    rw [← Bool.not_eq_true, ← Bool.not_eq_true, isUpper_iff_toNat, isDigit_iff_toNat]
    exact ⟨hpart, by omega, by omega⟩
  · decide

/-- A keyword is written as it is. -/
theorem spellsKeyword_ofList {text : List Char} (hmarks : text.all isKeywordMark = true) :
    SpellsKeyword (String.ofList text) text := by
  have hplain : ∀ c ∈ text, isNamePart c = true ∧ c.isUpper = false ∧ c.isDigit = false := by
    intro c hc
    exact isNamePart_of_isKeywordMark (List.all_eq_true.mp hmarks c hc)
  refine ⟨text, ?_, spellsChars_of_plain fun c hc => (hplain c hc).1, ?_⟩
  · rw [Text.asciiLower_of_not_isUpper fun c hc => (hplain c hc).2.1]
  · intro c hc
    exact (hplain c (List.mem_of_mem_head? hc)).2.2

/-- The argument of a pseudo-class stands behind its opening. -/
theorem append_argument {opening : String} {marks : List Char} (hopen : opening.toList = marks)
    (argument : List Char) : opening.toList ++ argument ++ [')'] = marks ++ (argument ++ [')']) :=
  calc opening.toList ++ argument ++ [')']
    _ = opening.toList ++ (argument ++ [')']) := List.append_assoc _ _ _
    _ = marks ++ (argument ++ [')']) := by rw [hopen]

theorem spellsFeature_render {feature : Feature} (hwf : feature.WellFormed) :
    SpellsFeature feature feature.render := by
  cases feature with
  | type name => exact .type (spellsIdentifier_renderIdentifier name.toList)
  | universal => exact .universal
  | hasId name => exact .hasId (spellsIdentifier_renderIdentifier name.toList)
  | hasClass name => exact .hasClass (spellsIdentifier_renderIdentifier name.toList)
  | hasAttribute test => exact .hasAttribute (spellsTest_render hwf.2)
  | nthChild nth =>
      have hkeyword : SpellsKeyword "nth-child"
          ['n', 't', 'h', '-', 'c', 'h', 'i', 'l', 'd'] :=
        spellsKeyword_ofList (by decide)
      have hopen : ":nth-child(".toList =
          [':', 'n', 't', 'h', '-', 'c', 'h', 'i', 'l', 'd', '('] :=
        String.toList_ofList
      have hrender : (Feature.nthChild nth).render = _ ++ (nth.render ++ [')']) :=
        append_argument hopen nth.render
      rw [hrender]
      exact .nthChild hkeyword (Nth.read?_render nth)
  | nthLastChild nth =>
      have hkeyword : SpellsKeyword "nth-last-child"
          ['n', 't', 'h', '-', 'l', 'a', 's', 't', '-', 'c', 'h', 'i', 'l', 'd'] :=
        spellsKeyword_ofList (by decide)
      have hopen : ":nth-last-child(".toList =
          [':', 'n', 't', 'h', '-', 'l', 'a', 's', 't', '-', 'c', 'h', 'i', 'l', 'd', '('] :=
        String.toList_ofList
      have hrender : (Feature.nthLastChild nth).render = _ ++ (nth.render ++ [')']) :=
        append_argument hopen nth.render
      rw [hrender]
      exact .nthLastChild hkeyword (Nth.read?_render nth)
  | firstChild =>
      have hrender : Feature.firstChild.render =
          ':' :: ['f', 'i', 'r', 's', 't', '-', 'c', 'h', 'i', 'l', 'd'] := String.toList_ofList
      rw [hrender]
      exact .firstChild (spellsKeyword_ofList (by decide))
  | lastChild =>
      have hrender : Feature.lastChild.render =
          ':' :: ['l', 'a', 's', 't', '-', 'c', 'h', 'i', 'l', 'd'] := String.toList_ofList
      rw [hrender]
      exact .lastChild (spellsKeyword_ofList (by decide))
  | onlyChild =>
      have hrender : Feature.onlyChild.render =
          ':' :: ['o', 'n', 'l', 'y', '-', 'c', 'h', 'i', 'l', 'd'] := String.toList_ofList
      rw [hrender]
      exact .onlyChild (spellsKeyword_ofList (by decide))

theorem spellsCombinator_render (combinator : Combinator) :
    SpellsCombinator combinator combinator.render := by
  cases combinator with
  | descendant => exact .descendant blanks_space (List.cons_ne_nil _ _)
  | child => exact @SpellsCombinator.marked .child '>' _ _ rfl blanks_space blanks_space
  | adjacent => exact @SpellsCombinator.marked .adjacent '+' _ _ rfl blanks_space blanks_space
  | general => exact @SpellsCombinator.marked .general '~' _ _ rfl blanks_space blanks_space

mutual

theorem spellsSimple_render : ∀ simple : Simple, wellFormedSimple simple →
    SpellsSimple simple (renderSimple simple)
  | .feature feature, hwf => .feature (spellsFeature_render hwf)
  | .not alternatives, hwf => by
      have hkeyword : SpellsKeyword "not" ['n', 'o', 't'] := spellsKeyword_ofList (by decide)
      have hopen : ":not(".toList = [':', 'n', 'o', 't', '('] := String.toList_ofList
      have hlist := spellsAlternatives_render alternatives hwf.1 hwf.2
      have hrender : renderSimple (.not alternatives) = _ ++ (renderAlternatives alternatives ++ [')']) :=
        append_argument hopen (renderAlternatives alternatives)
      have hspelled := SpellsSimple.not hkeyword blanks_nil hlist blanks_nil
      rw [List.append_nil] at hspelled
      rw [hrender]
      exact hspelled

theorem spellsCompound_render : ∀ simples : List Simple, wellFormedSimples simples →
    SpellsCompound simples (renderCompound simples)
  | [], _ => .nil
  | simple :: simples, hwf =>
      .cons (spellsSimple_render simple hwf.1) (spellsCompound_render simples hwf.2)

theorem spellsChain_render : ∀ chain : Chain Simple, wellFormedChain chain →
    SpellsChain chain (renderChain chain)
  | .last compound, hwf => .last (spellsCompound_render compound hwf.2.2)
  | .link compound combinator rest, hwf =>
      .link (spellsCompound_render compound hwf.1.2.2) (spellsCombinator_render combinator)
        (spellsChain_render rest hwf.2)

theorem spellsAlternatives_render : ∀ alternatives : List (Chain Simple), alternatives ≠ [] →
    wellFormedAlternatives alternatives →
      SpellsAlternatives alternatives (renderAlternatives alternatives)
  | [], hne, _ => absurd rfl hne
  | [chain], _, hwf => .last (spellsChain_render chain hwf.1)
  | chain :: next :: chains, _, hwf => by
      have hrest := spellsAlternatives_render (next :: chains) (List.cons_ne_nil _ _) hwf.2
      have hspelled := SpellsAlternatives.cons (spellsChain_render chain hwf.1) blanks_nil blanks_space hrest
      simpa [renderAlternatives] using hspelled

end

namespace SelectorList

theorem spelledBy_toText {alternatives : SelectorList} (hwf : alternatives.WellFormed) :
    alternatives.SpelledBy alternatives.toText := by
  refine ⟨[], renderAlternatives alternatives, [], ?_, blanks_nil,
    spellsAlternatives_render alternatives hwf.1 hwf.2, blanks_nil⟩
  rw [toText, String.toList_ofList, List.nil_append, List.append_nil]

theorem ofChars_renderAlternatives {alternatives : SelectorList} (hwf : alternatives.WellFormed)
    {limit : Nat} (hdepth : alternatives.depth ≤ limit) :
    ofChars limit (renderAlternatives alternatives) = .ok alternatives := by
  have hread := ofChars_of_spelledBy hwf hdepth (spelledBy_toText hwf)
  rwa [toText, String.toList_ofList] at hread

/-- A well-formed list is read from its written form at every limit that its depth does not exceed. -/
theorem parseWithin_toText (alternatives : SelectorList) (limit : Nat)
    (hwf : alternatives.WellFormed) (hdepth : alternatives.depth ≤ min limit greatestLimit) :
    parseWithin limit alternatives.toText = .ok alternatives := by
  rw [parseWithin, toText, String.toList_ofList, ofChars_renderAlternatives hwf hdepth]
  rfl

/-- A list with escapes of every kind: a digit in front, a quote, a backslash, a blank and a control. -/
def escaped : SelectorList :=
  [.link [.feature (.type "3d f"), .feature (.hasId "\\\"\n")] .descendant
      (.last [.feature (.hasAttribute ⟨"é x", some (.dash, "\"\\")⟩),
        .not [.last [.feature .universal, .feature (.nthChild ⟨Int32.minValue, -1⟩)],
          .last [.not [.last [.feature (.nthLastChild ⟨0, Int32.minValue⟩)]]]]]),
    .last [.feature .universal, .feature (.hasClass "-1")]]

theorem parseWithin_toText_escaped :
    escaped.WellFormed ∧ escaped.depth ≤ min 2 greatestLimit ∧
      parseWithin 2 escaped.toText = .ok escaped := by
  have hwf : escaped.WellFormed := by
    simp [escaped, WellFormed, wellFormedAlternatives, wellFormedChain, wellFormedSimples,
      wellFormedSimple, Feature.WellFormed, Simple.OnlyFirst]
  have hdepth : escaped.depth ≤ min 2 greatestLimit := by decide
  exact ⟨hwf, hdepth, parseWithin_toText escaped 2 hwf hdepth⟩

end SelectorList

end FlatTree.Selector
