import FlatTree.Selector.Reader

/-!
# Identifiers and strings

The written forms of names and values.  A backslash escapes the character behind it, or opens a code
point of one to six hexadecimal digits that a single blank may close.
-/

namespace FlatTree.Selector

/-- The character that stands for a code point of none, or for an escape with nothing behind it. -/
def replacement : Char := '\uFFFD'

def isNameStart (c : Char) : Bool :=
  c.isAlpha || c = '-' || c = '_' || c = '\\' || !Text.isAscii c

/-- Characters that stand for themselves in an identifier. -/
def isNamePart (c : Char) : Bool :=
  c.isAlphanum || c = '-' || c = '_' || !Text.isAscii c

def hexValue (c : Char) : Option Nat :=
  if c.isDigit then some (c.toNat - '0'.toNat)
  else if 'a' ≤ c && c ≤ 'f' then some (c.toNat - 'a'.toNat + 10)
  else if 'A' ≤ c && c ≤ 'F' then some (c.toNat - 'A'.toNat + 10)
  else none

/-- The hexadecimal digits at the front of a text, at most six. -/
def codeDigits (text : List Char) : List Char :=
  (text.take 6).takeWhile fun c => (hexValue c).isSome

def codeValue (digits : List Char) : Nat :=
  (digits.filterMap hexValue).foldl (fun value digit => 16 * value + digit) 0

def charOfCode (code : Nat) : Char :=
  if valid : code.isValidChar then Char.ofNatAux code valid else replacement

def dropOneBlank : List Char → List Char
  | [] => []
  | c :: rest => if Text.isAsciiBlank c then rest else c :: rest

/-- The character that the text behind a backslash stands for, and what follows it. -/
def readEscape (text : List Char) : Char × List Char :=
  match text with
  | [] => (replacement, [])
  | c :: rest =>
    match codeDigits text with
    | [] => (c, rest)
    | digits => (charOfCode (codeValue digits), dropOneBlank (text.drop digits.length))

theorem dropOneBlank_suffix (text : List Char) : dropOneBlank text <:+ text := by
  cases text with
  | nil => exact List.suffix_rfl
  | cons c rest =>
    simp only [dropOneBlank]
    split
    · exact List.suffix_cons c rest
    · exact List.suffix_rfl

theorem readEscape_suffix (text : List Char) : (readEscape text).2 <:+ text := by
  unfold readEscape
  split
  · exact List.suffix_rfl
  · split
    · exact List.suffix_cons _ _
    · exact (dropOneBlank_suffix _).trans (List.drop_suffix _ _)

/-- The longest identifier at the front of a text, possibly empty, and what follows it. -/
def readIdentifier (text : List Char) : List Char × List Char :=
  match text with
  | [] => ([], [])
  | c :: rest =>
    if c = '\\' then
      let name := readIdentifier (readEscape rest).2
      ((readEscape rest).1 :: name.1, name.2)
    else if isNamePart c then
      let name := readIdentifier rest
      (c :: name.1, name.2)
    else
      ([], text)
termination_by text.length
decreasing_by
  · have := (readEscape_suffix rest).length_le
    simp
    omega
  · simp

theorem readIdentifier_suffix (text : List Char) : (readIdentifier text).2 <:+ text := by
  fun_induction readIdentifier text with
  | case1 => exact List.suffix_rfl
  | case2 rest name ih => exact (ih.trans (readEscape_suffix rest)).trans (List.suffix_cons _ _)
  | case3 c rest _ _ name ih => exact ih.trans (List.suffix_cons _ _)
  | case4 => exact List.suffix_rfl

theorem readIdentifier_follows {c : Char} (starts : isNameStart c) (rest : List Char) :
    Follows (readIdentifier (c :: rest)).2 (c :: rest) := by
  rw [readIdentifier]
  split
  · exact .cons ((readIdentifier_suffix _).trans (readEscape_suffix rest))
  · split
    · exact .cons (readIdentifier_suffix rest)
    · simp_all [isNameStart, isNamePart, Char.isAlphanum]

/-- Reads an identifier that has to stand at the front of the text. -/
def expectIdentifier (text : List Char) : Reading (List Char) :=
  match text with
  | [] => .error (.missingCompound text)
  | c :: _ =>
    if isNameStart c then .ok (readIdentifier text) else .error (.unexpected c text)

theorem expectIdentifier_follows {text name rest : List Char}
    (result : expectIdentifier text = .ok (name, rest)) : Follows rest text := by
  unfold expectIdentifier at result
  split at result
  · cases result
  · split at result
    · rename_i c more starts
      have := readIdentifier_follows starts more
      simp_all
    · cases result

/-- The value of a string whose opening quote has been taken.  A backslash before a line feed joins
the lines.  Without a closing quote there is no value. -/
def readString (quote : Char) (text : List Char) : Option (List Char × List Char) :=
  match text with
  | [] => none
  | c :: rest =>
    if c = quote then
      some ([], rest)
    else if c = '\\' then
      match rest with
      | [] => none
      | next :: behind =>
        if next = '\n' then
          readString quote behind
        else
          let character := readEscape (next :: behind)
          (readString quote character.2).map fun value => (character.1 :: value.1, value.2)
    else
      (readString quote rest).map fun value => (c :: value.1, value.2)
termination_by text.length
decreasing_by
  · simp only [List.length_cons]
    omega
  · have := (readEscape_suffix (next :: behind)).length_le
    simp only [List.length_cons] at this ⊢
    omega
  · exact Nat.lt_succ_self _

theorem readString_suffix {quote : Char} {text value rest : List Char}
    (result : readString quote text = some (value, rest)) : rest <:+ text := by
  fun_induction readString quote text generalizing value rest with
  | case1 => simp at result
  | case2 rest' => simp_all
  | case3 => simp at result
  | case4 _ behind ih =>
    exact (ih result).trans ((List.suffix_cons _ _).trans (List.suffix_cons _ _))
  | case5 next behind =>
    rename_i ih
    obtain ⟨found, isFound, equal⟩ := Option.map_eq_some_iff.1 result
    cases equal
    exact ((ih isFound).trans (readEscape_suffix _)).trans (List.suffix_cons _ _)
  | case6 c rest' _ _ ih =>
    obtain ⟨found, isFound, equal⟩ := Option.map_eq_some_iff.1 result
    cases equal
    exact (ih isFound).trans (List.suffix_cons _ _)

/-- The written form of a character behind the first one of an identifier. -/
def renderInner (c : Char) : List Char :=
  if isNamePart c then [c] else ['\\', c]

/-- A digit at the front is written by its code point, which is 3 and the digit in hexadecimal. -/
def renderIdentifier : List Char → List Char
  | [] => []
  | c :: rest =>
    (if c.isDigit then ['\\', '3', c, ' '] else renderInner c) ++ rest.flatMap renderInner

/-- The written form of a value, always between double quotes. -/
def renderString (value : List Char) : List Char :=
  '"' :: value.flatMap (fun c => if c = '"' || c = '\\' then ['\\', c] else [c]) ++ ['"']

end FlatTree.Selector
