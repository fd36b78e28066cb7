import FlatTree.Markup.CharacterReference
import FlatTree.Text.Ascii

/-!
# Tokens of markup

Markup is a sequence of tags, comments, document types and text.  Names of tags and attributes are known
by their lower-case form, and of two attributes with one name the first counts.
-/

namespace FlatTree.Markup

structure StartTag where
  name : String
  attributes : List (String × String)
  selfClosing : Bool

inductive Token where
  | start (tag : StartTag)
  | close (name : String)
  | text (content : List Char)
  | comment (content : List Char)
  | doctype

/-- The text up to the first occurrence of a mark, and the text behind the mark. -/
def breakAt (mark : List Char) : List Char → List Char × List Char
  | [] => ([], [])
  | c :: rest =>
    if mark.isPrefixOf (c :: rest) then
      ([], (c :: rest).drop mark.length)
    else
      let broken := breakAt mark rest
      (c :: broken.1, broken.2)

def endsName (c : Char) : Bool :=
  Text.isAsciiBlank c || c = '/' || c = '>'

def lowerName (name : List Char) : String :=
  String.ofList (Text.asciiLower name)

/-- The value of an attribute behind its equals sign, and what follows it. -/
def readValue (text : List Char) : List Char × List Char :=
  match Text.trimAsciiStart text with
  | '"' :: rest => breakAt ['"'] rest
  | '\'' :: rest => breakAt ['\''] rest
  | rest =>
    (rest.takeWhile fun c => !Text.isAsciiBlank c && c ≠ '>',
      rest.dropWhile fun c => !Text.isAsciiBlank c && c ≠ '>')

theorem breakAt_suffix (mark text : List Char) : (breakAt mark text).2 <:+ text := by
  induction text with
  | nil => exact List.suffix_rfl
  | cons c rest ih =>
    simp only [breakAt]
    split
    · exact List.drop_suffix _ _
    · exact ih.trans (List.suffix_cons c rest)

theorem readValue_suffix (text : List Char) : (readValue text).2 <:+ text := by
  have trimmed : Text.trimAsciiStart text <:+ text := List.dropWhile_suffix _
  unfold readValue
  split
  · rename_i rest equal
    exact (breakAt_suffix _ _).trans ((List.suffix_cons _ _).trans (equal ▸ trimmed))
  · rename_i rest equal
    exact (breakAt_suffix _ _).trans ((List.suffix_cons _ _).trans (equal ▸ trimmed))
  · exact (List.dropWhile_suffix _).trans trimmed

/-- What stands in a tag behind its name: the attributes, whether a slash closes the element at once,
and the text behind the tag. -/
structure TagRest where
  attributes : List (String × String)
  selfClosing : Bool
  rest : List Char

def readTagRest (text : List Char) : TagRest :=
  match text with
  | [] => ⟨[], false, []⟩
  | c :: rest =>
    if c = '>' then
      ⟨[], false, rest⟩
    else if c = '/' && rest.head? = some '>' then
      ⟨[], true, rest.tail⟩
    else if Text.isAsciiBlank c || c = '/' then
      readTagRest rest
    else
      let name := lowerName (c :: rest.takeWhile fun c => !endsName c && c ≠ '=')
      let behind := rest.dropWhile fun c => !endsName c && c ≠ '='
      if (Text.trimAsciiStart behind).head? = some '=' then
        let value := readValue (Text.trimAsciiStart behind).tail
        let others := readTagRest value.2
        { others with attributes := (name, String.ofList (decode value.1)) :: others.attributes }
      else
        let others := readTagRest behind
        { others with attributes := (name, "") :: others.attributes }
termination_by text.length
decreasing_by
  · simp
  · have suffix := (readValue_suffix (Text.trimAsciiStart behind).tail).trans
      ((List.tail_suffix _).trans ((List.dropWhile_suffix _).trans
        (List.dropWhile_suffix (l := rest) fun c => !endsName c && c ≠ '=')))
    exact Nat.lt_succ_of_le suffix.length_le
  · exact Nat.lt_succ_of_le (List.dropWhile_suffix _).length_le

theorem readTagRest_suffix (text : List Char) : (readTagRest text).rest <:+ text := by
  fun_induction readTagRest text with
  | case1 => exact List.suffix_rfl
  | case2 => exact List.suffix_cons _ _
  | case3 c rest => exact (List.tail_suffix rest).trans (List.suffix_cons c rest)
  | case4 c rest _ _ _ ih => exact ih.trans (List.suffix_cons c rest)
  | case5 c rest _ _ _ name behind _ value others ih =>
    exact ((ih.trans (readValue_suffix _)).trans ((List.tail_suffix _).trans
      ((List.dropWhile_suffix _).trans (List.dropWhile_suffix _)))).trans (List.suffix_cons c rest)
  | case6 c rest _ _ _ name behind _ others ih =>
    exact (ih.trans (List.dropWhile_suffix _)).trans (List.suffix_cons c rest)

/-- Keeps the first of the attributes with one name. -/
def firstAttributes : List (String × String) → List (String × String)
  | [] => []
  | pair :: pairs => pair :: (firstAttributes pairs).filter fun other => other.1 ≠ pair.1

def readStartTag (text : List Char) : StartTag × List Char :=
  let tag := readTagRest (text.dropWhile (!endsName ·))
  (⟨lowerName (text.takeWhile (!endsName ·)), firstAttributes tag.attributes, tag.selfClosing⟩,
    tag.rest)

def readEndTag (text : List Char) : String × List Char :=
  (lowerName (text.takeWhile (!endsName ·)), (readTagRest (text.dropWhile (!endsName ·))).rest)

/-- Whether markup other than text stands at the front of a text. -/
def opensMarkup : List Char → Bool
  | '<' :: '!' :: _ => true
  | '<' :: '/' :: c :: _ => c.isAlpha
  | '<' :: c :: _ => c.isAlpha
  | _ => false

/-- The text up to the next markup, and what follows it. -/
def readText : List Char → List Char × List Char
  | [] => ([], [])
  | c :: rest =>
    if opensMarkup (c :: rest) then
      ([], c :: rest)
    else
      let text := readText rest
      (c :: text.1, text.2)

/-- The mark that opens text in which neither tags nor references count. -/
def plainTextMark : List Char :=
  "<![CDATA[".toList

/-- The token at the front of a text and what follows it.  Plain text is marked in foreign content
only. -/
def Token.next? (foreign : Bool) (text : List Char) : Option (Token × List Char) :=
  match text with
  | [] => none
  | c :: rest =>
    if foreign && plainTextMark.isPrefixOf text then
      let plain := breakAt "]]>".toList (rest.drop (plainTextMark.length - 1))
      some (.text plain.1, plain.2)
    else if opensMarkup text then
      match rest with
      | '!' :: '-' :: '-' :: rest =>
        let comment := breakAt ['-', '-', '>'] rest
        some (.comment comment.1, comment.2)
      | '!' :: rest => some (.doctype, (breakAt ['>'] rest).2)
      | '/' :: rest => some (.close (readEndTag rest).1, (readEndTag rest).2)
      | _ => some (.start (readStartTag rest).1, (readStartTag rest).2)
    else
      let text := readText rest
      some (.text (decode (c :: text.1)), text.2)

theorem readText_suffix (text : List Char) : (readText text).2 <:+ text := by
  induction text with
  | nil => exact List.suffix_rfl
  | cons c rest ih =>
    simp only [readText]
    split
    · exact List.suffix_rfl
    · exact ih.trans (List.suffix_cons c rest)

theorem readStartTag_suffix (text : List Char) : (readStartTag text).2 <:+ text :=
  (readTagRest_suffix _).trans (List.dropWhile_suffix _)

theorem readEndTag_suffix (text : List Char) : (readEndTag text).2 <:+ text :=
  (readTagRest_suffix _).trans (List.dropWhile_suffix _)

theorem Token.length_lt_of_next?_eq_some {foreign : Bool} {text rest : List Char} {token : Token}
    (result : Token.next? foreign text = some (token, rest)) : rest.length < text.length := by
  unfold Token.next? at result
  dsimp only at result
  split at result
  · cases result
  · apply Nat.lt_succ_of_le
    apply List.IsSuffix.length_le
    repeat' split at result
    all_goals cases result
    · exact (breakAt_suffix _ _).trans (List.drop_suffix _ _)
    · exact (breakAt_suffix _ _).trans
        ((List.suffix_cons _ _).trans ((List.suffix_cons _ _).trans (List.suffix_cons _ _)))
    · exact (breakAt_suffix _ _).trans (List.suffix_cons _ _)
    · exact (readEndTag_suffix _).trans (List.suffix_cons _ _)
    · exact readStartTag_suffix _
    · exact readText_suffix _

end FlatTree.Markup
