import FlatTree.Selector.Basic
import FlatTree.Selector.Identifier

/-!
# Attribute selectors

The written form between brackets: a name, or a name, a comparison and a value.  Blanks may stand
around the name, behind the comparison and behind the value.  Every failure names the opening bracket,
apart from an unterminated string, which names its opening quote.
-/

namespace FlatTree.Selector

namespace Comparison

def read? : List Char → Option (Comparison × List Char)
  | '=' :: rest => some (equals, rest)
  | '~' :: '=' :: rest => some (includes, rest)
  | '|' :: '=' :: rest => some (dash, rest)
  | '^' :: '=' :: rest => some (starts, rest)
  | '$' :: '=' :: rest => some (ends, rest)
  | '*' :: '=' :: rest => some (contains, rest)
  | _ => none

theorem read?_suffix {text rest : List Char} {comparison : Comparison}
    (result : read? text = some (comparison, rest)) : rest <:+ text := by
  unfold read? at result
  split at result <;> cases result
  case h_1 => exact List.suffix_cons _ _
  all_goals exact (List.suffix_cons _ _).trans (List.suffix_cons _ _)

def render : Comparison → List Char
  | equals => ['=']
  | includes => ['~', '=']
  | dash => ['|', '=']
  | starts => ['^', '=']
  | ends => ['$', '=']
  | contains => ['*', '=']

end Comparison

namespace AttributeTest

/-- The expected value in an attribute selector that opens at `opening`. -/
def readValue (opening text : List Char) : Reading String :=
  match text with
  | [] => .error (.unclosedBracket opening)
  | c :: rest =>
    if c = '"' || c = '\'' then
      match readString c rest with
      | none => .error (.unclosedString text)
      | some (value, rest) => .ok (String.ofList value, rest)
    else if isNameStart c || c.isDigit then
      .ok (String.ofList (readIdentifier text).1, (readIdentifier text).2)
    else
      .error (.invalidAttribute opening)

/-- What follows the bracket that closes an attribute selector opened at `opening`. -/
def close (opening text : List Char) : Except (Fault (List Char)) (List Char) :=
  match Text.trimAsciiStart text with
  | [] => .error (.unclosedBracket opening)
  | ']' :: rest => .ok rest
  | _ => .error (.invalidAttribute opening)

/-- Reads what stands behind the opening bracket of an attribute selector. -/
def readInside (opening text : List Char) : Reading AttributeTest :=
  let name := readIdentifier (Text.trimAsciiStart text)
  if name.1.isEmpty then
    .error (.invalidAttribute opening)
  else
    let lowered := String.ofList (Text.asciiLower name.1)
    match Text.trimAsciiStart name.2 with
    | [] => .error (.unclosedBracket opening)
    | ']' :: rest => .ok (⟨lowered, none⟩, rest)
    | behind =>
      match Comparison.read? behind with
      | none => .error (.invalidAttribute opening)
      | some (comparison, rest) =>
        match readValue opening (Text.trimAsciiStart rest) with
        | .error error => .error error
        | .ok (value, rest) =>
          match close opening rest with
          | .error error => .error error
          | .ok rest => .ok (⟨lowered, some (comparison, value)⟩, rest)

theorem readValue_suffix {opening text rest : List Char} {value : String}
    (result : readValue opening text = .ok (value, rest)) : rest <:+ text := by
  unfold readValue at result
  split at result
  · cases result
  · split at result
    · split at result
      · cases result
      · rename_i found
        cases result
        exact (readString_suffix found).trans (List.suffix_cons _ _)
    · split at result
      · cases result
        exact readIdentifier_suffix _
      · cases result

theorem close_suffix {opening text rest : List Char} (result : close opening text = .ok rest) :
    rest <:+ text := by
  unfold close at result
  have trimmed := trimAsciiStart_suffix text
  split at result <;> cases result
  rename_i equal
  rw [equal] at trimmed
  exact (List.suffix_cons _ _).trans trimmed

theorem readInside_suffix {opening text rest : List Char} {test : AttributeTest}
    (result : readInside opening text = .ok (test, rest)) : rest <:+ text := by
  have name_suffix := (trimAsciiStart_suffix _).trans
    ((readIdentifier_suffix _).trans (trimAsciiStart_suffix text))
  unfold readInside at result
  dsimp only at result
  split at result
  · cases result
  · split at result
    · cases result
    · rename_i equal
      cases result
      exact (List.suffix_cons _ _).trans (equal ▸ name_suffix)
    · split at result
      · cases result
      · rename_i found
        split at result
        · cases result
        · rename_i valued
          split at result
          · cases result
          · rename_i closed
            cases result
            exact (close_suffix closed).trans ((readValue_suffix valued).trans
              ((trimAsciiStart_suffix _).trans ((Comparison.read?_suffix found).trans name_suffix)))

def render (test : AttributeTest) : List Char :=
  '[' :: renderIdentifier test.name.toList ++
    (match test.value with
    | none => []
    | some (comparison, value) => comparison.render ++ renderString value.toList) ++ [']']

end AttributeTest

end FlatTree.Selector
