import FlatTree.Markup.Token

/-!
# Verbatim content

The content of some elements is text up to their end tag, whatever it looks like.  A script that opens a
comment may hold whole script elements in it, whose end tags do not count.
-/

namespace FlatTree.Markup

/-- HTML elements whose content is text as it stands. -/
def verbatimNames : List String :=
  ["style", "xmp", "iframe", "noembed", "noframes", "noscript"]

/-- HTML elements whose content is text with character references. -/
def textNames : List String :=
  ["title", "textarea"]

/-- HTML elements that lose a line feed at the front of their content. -/
def paddedNames : List String :=
  ["pre", "listing", "textarea"]

def dropLineFeed : List Char → List Char
  | '\n' :: rest => rest
  | text => text

/-- Whether a tag opens with a mark and a whole name at the front of a text. -/
def tagHere (mark name text : List Char) : Bool :=
  mark.isPrefixOf text && Text.asciiLower ((text.drop mark.length).take name.length) = name &&
    (text.drop (mark.length + name.length)).head?.any endsName

def closesHere (name text : List Char) : Bool :=
  tagHere ['<', '/'] name text

/-- The text behind the end tag of a name that stands at the front. -/
def skipEndTag (name text : List Char) : List Char :=
  (readTagRest (text.drop (name.length + 2))).rest

/-- The text up to the end tag of a name, and what follows the tag. -/
def readUntilEndTag (name : List Char) : List Char → List Char × List Char
  | [] => ([], [])
  | c :: rest =>
    if closesHere name (c :: rest) then
      ([], skipEndTag name (c :: rest))
    else
      let content := readUntilEndTag name rest
      (c :: content.1, content.2)

/-- How deep in comments a script stands. -/
inductive ScriptPlace where
  | outside
  | comment
  /-- In a script element that a comment holds. -/
  | nested
deriving DecidableEq

def scriptName : List Char :=
  "script".toList

/-- The place behind the first character of a text that so many dashes precede. -/
def ScriptPlace.next (place : ScriptPlace) (dashes : Nat) (text : List Char) : ScriptPlace :=
  let closesComment := text.head? = some '>' && 2 ≤ dashes
  match place with
  | outside => if "<!--".toList.isPrefixOf text then comment else outside
  | comment =>
    if closesComment then outside
    else if tagHere ['<'] scriptName text then nested
    else comment
  | nested =>
    if closesComment then outside
    else if closesHere scriptName text then comment
    else nested

/-- The content of a script that goes on at a place behind so many dashes, and what follows its end
tag. -/
def readScript (place : ScriptPlace) (dashes : Nat) : List Char → List Char × List Char
  | [] => ([], [])
  | c :: rest =>
    if place ≠ .nested && closesHere scriptName (c :: rest) then
      ([], skipEndTag scriptName (c :: rest))
    else
      let content :=
        readScript (place.next dashes (c :: rest)) (if c = '-' then dashes + 1 else 0) rest
      (c :: content.1, content.2)

/-- The content of an element that holds nothing but text, and what follows its end tag. -/
def readVerbatim? (name : String) (text : List Char) : Option (List Char × List Char) :=
  if name = "script" then
    some (readScript .outside 0 text)
  else if verbatimNames.contains name then
    some (readUntilEndTag name.toList text)
  else if textNames.contains name then
    let content := readUntilEndTag name.toList text
    some (decode content.1, content.2)
  else
    none

theorem dropLineFeed_suffix (text : List Char) : dropLineFeed text <:+ text := by
  unfold dropLineFeed
  split
  · exact List.suffix_cons _ _
  · exact List.suffix_rfl

theorem skipEndTag_suffix (name text : List Char) : skipEndTag name text <:+ text :=
  (readTagRest_suffix _).trans (List.drop_suffix _ _)

theorem readUntilEndTag_suffix (name text : List Char) : (readUntilEndTag name text).2 <:+ text := by
  induction text with
  | nil => exact List.suffix_rfl
  | cons c rest ih =>
    simp only [readUntilEndTag]
    split
    · exact skipEndTag_suffix _ _
    · exact ih.trans (List.suffix_cons c rest)

theorem readScript_suffix (place : ScriptPlace) (dashes : Nat) (text : List Char) :
    (readScript place dashes text).2 <:+ text := by
  induction text generalizing place dashes with
  | nil => exact List.suffix_rfl
  | cons c rest ih =>
    simp only [readScript]
    split
    · exact skipEndTag_suffix _ _
    · exact (ih _ _).trans (List.suffix_cons c rest)

theorem readVerbatim?_suffix {name : String} {text : List Char} {content : List Char × List Char}
    (result : readVerbatim? name text = some content) : content.2 <:+ text := by
  unfold readVerbatim? at result
  split at result
  · cases result
    exact readScript_suffix _ _ _
  · split at result
    · cases result
      exact readUntilEndTag_suffix _ _
    · split at result
      · cases result
        exact readUntilEndTag_suffix _ _
      · cases result

end FlatTree.Markup
