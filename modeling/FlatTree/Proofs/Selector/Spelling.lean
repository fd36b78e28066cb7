import FlatTree.Selector.Parser

/-!
# Spellings of selectors

A selector can be written in many ways.  Characters of names and values stand for themselves or are
escaped, blanks may stand around marks, keywords and names of attributes are written in any case, and values
stand between quotes of either kind or without any.  Each relation here tells which texts spell a part of a
selector; together they follow the grammar from the inside out.
-/

namespace FlatTree.Selector

/-- A run of blanks, possibly empty. -/
def Blanks (text : List Char) : Prop :=
  ∀ c ∈ text, Text.isAsciiBlank c = true

/-! ## Names and values -/

/-- The ways to write one character: as itself where it is plain, behind a backslash where that does not
open a code point and the character can be escaped so, or as a code point that a blank closes. -/
inductive SpellsChar (plain escapable : Char → Prop) (c : Char) : List Char → Prop where
  | plain (hplain : plain c) : SpellsChar plain escapable c [c]
  | escaped (hhex : hexValue c = none) (hescapable : escapable c) :
      SpellsChar plain escapable c ['\\', c]
  | code {digits : List Char} {blank : Char} (hne : digits ≠ []) (hlength : digits.length ≤ 6)
      (hhex : ∀ digit ∈ digits, (hexValue digit).isSome = true)
      (hcode : charOfCode (codeValue digits) = c) (hblank : Text.isAsciiBlank blank = true) :
      SpellsChar plain escapable c ('\\' :: (digits ++ [blank]))

/-- Each character is written in one of its ways. -/
inductive SpellsChars (plain escapable : Char → Prop) : List Char → List Char → Prop where
  | nil : SpellsChars plain escapable [] []
  | cons {c : Char} {value text more : List Char} (hfirst : SpellsChar plain escapable c text)
      (hrest : SpellsChars plain escapable value more) :
      SpellsChars plain escapable (c :: value) (text ++ more)

/-- In a name its own characters are plain, and all others can be escaped. -/
def SpellsName : List Char → List Char → Prop :=
  SpellsChars (isNamePart · = true) fun _ => True

/-- A name that does not open with a digit. -/
structure SpellsIdentifier (name text : List Char) : Prop where
  spellsName : SpellsName name text
  not_digit : ∀ c ∈ text.head?, c.isDigit = false

/-- The name of a pseudo-class in any case. -/
def SpellsKeyword (keyword : String) (text : List Char) : Prop :=
  ∃ name, String.ofList (Text.asciiLower name) = keyword ∧ SpellsIdentifier name text

/-- Between quotes all characters but the quote and the backslash are plain, and all but the line feed
can be escaped.  A value that is not empty may also be written as a name is. -/
inductive SpellsValue (value : List Char) : List Char → Prop where
  | quoted {quote : Char} {text : List Char} (hquote : quote = '"' ∨ quote = '\'')
      (hvalue : SpellsChars (fun c => c ≠ quote ∧ c ≠ '\\') (· ≠ '\n') value text) :
      SpellsValue value (quote :: (text ++ [quote]))
  | bare {text : List Char} (hne : value ≠ []) (hvalue : SpellsName value text) :
      SpellsValue value text

/-- The name of an attribute in any case. -/
def SpellsAttributeName (name : String) (text : List Char) : Prop :=
  ∃ written, String.ofList (Text.asciiLower written) = name ∧ SpellsName written text

inductive SpellsTest (name : String) : Option (Comparison × String) → List Char → Prop where
  | present {front text back : List Char} (hfront : Blanks front) (hname : SpellsAttributeName name text)
      (hback : Blanks back) : SpellsTest name none ('[' :: (front ++ text ++ back ++ [']']))
  | compared {comparison : Comparison} {value : String} {front text back gap written behind : List Char}
      (hfront : Blanks front) (hname : SpellsAttributeName name text) (hback : Blanks back)
      (hgap : Blanks gap) (hvalue : SpellsValue value.toList written) (hbehind : Blanks behind) :
      SpellsTest name (some (comparison, value))
        ('[' :: (front ++ text ++ back ++ comparison.render ++ gap ++ written ++ behind ++ [']']))

/-! ## Selectors -/

/-- The argument of a position is any text that reads as the position. -/
inductive SpellsFeature : Feature → List Char → Prop where
  | type {name : String} {text : List Char} (hname : SpellsIdentifier name.toList text) :
      SpellsFeature (.type name) text
  | universal : SpellsFeature .universal ['*']
  | hasId {name : String} {text : List Char} (hname : SpellsIdentifier name.toList text) :
      SpellsFeature (.hasId name) ('#' :: text)
  | hasClass {name : String} {text : List Char} (hname : SpellsIdentifier name.toList text) :
      SpellsFeature (.hasClass name) ('.' :: text)
  | hasAttribute {test : AttributeTest} {text : List Char} (htest : SpellsTest test.name test.value text) :
      SpellsFeature (.hasAttribute test) text
  | nthChild {nth : Nth} {keyword argument : List Char} (hkeyword : SpellsKeyword "nth-child" keyword)
      (hargument : Nth.read? argument = some nth) :
      SpellsFeature (.nthChild nth) (':' :: (keyword ++ '(' :: (argument ++ [')'])))
  | nthLastChild {nth : Nth} {keyword argument : List Char}
      (hkeyword : SpellsKeyword "nth-last-child" keyword) (hargument : Nth.read? argument = some nth) :
      SpellsFeature (.nthLastChild nth) (':' :: (keyword ++ '(' :: (argument ++ [')'])))
  | firstChild {keyword : List Char} (hkeyword : SpellsKeyword "first-child" keyword) :
      SpellsFeature .firstChild (':' :: keyword)
  | lastChild {keyword : List Char} (hkeyword : SpellsKeyword "last-child" keyword) :
      SpellsFeature .lastChild (':' :: keyword)
  | onlyChild {keyword : List Char} (hkeyword : SpellsKeyword "only-child" keyword) :
      SpellsFeature .onlyChild (':' :: keyword)

/-- The mark of a combinator that has one. -/
def Combinator.mark? : Combinator → Option Char
  | descendant => none
  | child => some '>'
  | adjacent => some '+'
  | general => some '~'

/-- Blanks may stand around the mark of a combinator, and alone they join as descendants. -/
inductive SpellsCombinator : Combinator → List Char → Prop where
  | descendant {text : List Char} (hblanks : Blanks text) (hne : text ≠ []) :
      SpellsCombinator .descendant text
  | marked {combinator : Combinator} {mark : Char} {front back : List Char}
      (hmark : combinator.mark? = some mark) (hfront : Blanks front) (hback : Blanks back) :
      SpellsCombinator combinator (front ++ mark :: back)

mutual

inductive SpellsSimple : Simple → List Char → Prop where
  | feature {feature : Feature} {text : List Char} (hfeature : SpellsFeature feature text) :
      SpellsSimple (.feature feature) text
  | not {alternatives : List (Chain Simple)} {keyword front text back : List Char}
      (hkeyword : SpellsKeyword "not" keyword) (hfront : Blanks front)
      (hlist : SpellsAlternatives alternatives text) (hback : Blanks back) :
      SpellsSimple (.not alternatives) (':' :: (keyword ++ '(' :: (front ++ text ++ back ++ [')'])))

inductive SpellsCompound : List Simple → List Char → Prop where
  | nil : SpellsCompound [] []
  | cons {simple : Simple} {simples : List Simple} {text more : List Char}
      (hfirst : SpellsSimple simple text) (hrest : SpellsCompound simples more) :
      SpellsCompound (simple :: simples) (text ++ more)

inductive SpellsChain : Chain Simple → List Char → Prop where
  | last {compound : List Simple} {text : List Char} (hcompound : SpellsCompound compound text) :
      SpellsChain (.last compound) text
  | link {compound : List Simple} {combinator : Combinator} {rest : Chain Simple}
      {text joint more : List Char} (hcompound : SpellsCompound compound text)
      (hjoint : SpellsCombinator combinator joint) (hrest : SpellsChain rest more) :
      SpellsChain (.link compound combinator rest) (text ++ joint ++ more)

inductive SpellsAlternatives : List (Chain Simple) → List Char → Prop where
  | last {chain : Chain Simple} {text : List Char} (hchain : SpellsChain chain text) :
      SpellsAlternatives [chain] text
  | cons {chain : Chain Simple} {chains : List (Chain Simple)} {text front back more : List Char}
      (hchain : SpellsChain chain text) (hfront : Blanks front) (hback : Blanks back)
      (hrest : SpellsAlternatives chains more) :
      SpellsAlternatives (chain :: chains) (text ++ front ++ ',' :: (back ++ more))

end

/-- Blanks may stand around a list. -/
def SelectorList.SpelledBy (alternatives : SelectorList) (text : String) : Prop :=
  ∃ front middle back, text.toList = front ++ middle ++ back ∧ Blanks front ∧
    SpellsAlternatives alternatives middle ∧ Blanks back

end FlatTree.Selector
