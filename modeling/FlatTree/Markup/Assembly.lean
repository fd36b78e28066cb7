import FlatTree.Markup.Foreign
import FlatTree.Markup.Verbatim

/-!
# From text to items

Tags open and close elements one inside the other.  An element is closed by its end tag, by the end tag of
an element around it or by the end of the text; an end tag without an open element counts for nothing.
The tags of the three parts of a document make no elements here: outside of all other elements they are
kept as marks, elsewhere they count for nothing.
-/

namespace FlatTree.Markup

/-- HTML elements that never have content. -/
def voidNames : List String :=
  ["area", "base", "basefont", "bgsound", "br", "col", "embed", "frame", "hr", "img", "input", "keygen",
    "link", "meta", "param", "source", "track", "wbr"]

/-- The elements that every document has. -/
inductive Part where
  | html
  | head
  | body
deriving DecidableEq

namespace Part

def name : Part → String
  | html => "html"
  | head => "head"
  | body => "body"

def named? (name : String) : Option Part :=
  [html, head, body].find? fun part => part.name = name

end Part

/-- What stands in a text outside of all elements but the parts of the document. -/
inductive Item where
  | node (source : Source)
  | opens (part : Part) (attributes : List (String × String))
  | closes (part : Part)

structure OpenElement where
  head : ElementHead
  /-- The name that closes the element. -/
  tagName : String
  /-- The children so far, last one first. -/
  placed : List Source

/-- What has been read: the items that are complete, last one first, and the open elements, innermost
first. -/
structure Assembly where
  items : List Item
  opened : List OpenElement

/-- Puts text behind what has been placed, last one first.  Text next to text is joined to it. -/
def placeText (content : List Char) : List Source → List Source
  | .text previous :: placed => .text (previous ++ String.ofList content) :: placed
  | placed => if content.isEmpty then placed else .text (String.ofList content) :: placed

/-- The whole element.  What stands in a template is its content and not its children. -/
def OpenElement.whole (element : OpenElement) : Source :=
  if element.head.space = htmlNamespace && element.head.name = "template" then
    .element element.head [] element.placed.reverse
  else
    .element element.head element.placed.reverse []

namespace Assembly

def empty : Assembly :=
  ⟨[], []⟩

def parent (assembly : Assembly) : Option ElementHead :=
  assembly.opened.head?.map OpenElement.head

def place (assembly : Assembly) (source : Source) : Assembly :=
  match assembly.opened with
  | [] => { assembly with items := .node source :: assembly.items }
  | element :: opened =>
    { assembly with opened := { element with placed := source :: element.placed } :: opened }

/-- Whether the innermost element belongs to another vocabulary than HTML. -/
def inForeign (assembly : Assembly) : Bool :=
  assembly.parent.any fun head => head.space ≠ htmlNamespace

def addText (assembly : Assembly) (content : List Char) : Assembly :=
  match assembly.opened with
  | [] => { assembly with items := .node (.text (String.ofList content)) :: assembly.items }
  | element :: opened =>
    { assembly with
      opened := { element with placed := placeText content element.placed } :: opened }

/-- Keeps a mark, unless it stands in an element. -/
def mark (assembly : Assembly) (item : Item) : Assembly :=
  if assembly.opened.isEmpty then
    { assembly with items := item :: assembly.items }
  else
    assembly

def enter (assembly : Assembly) (head : ElementHead) (tagName : String) : Assembly :=
  { assembly with opened := ⟨head, tagName, []⟩ :: assembly.opened }

def closeInnermost (assembly : Assembly) : Assembly :=
  match assembly.opened with
  | [] => assembly
  | element :: opened => place { assembly with opened } element.whole

/-- Closes the innermost element with a name and all that stand in it. -/
def close (assembly : Assembly) (name : String) : Assembly :=
  match assembly.opened.findIdx? fun element => element.tagName = name with
  | some index => Nat.repeat closeInnermost (index + 1) assembly
  | none =>
    match Part.named? name with
    | some part => assembly.mark (.closes part)
    | none => assembly

/-- All items that have been read, with every element closed. -/
def finish (assembly : Assembly) : List Item :=
  (Nat.repeat closeInnermost assembly.opened.length assembly).items.reverse

/-- Reads on behind the start tag of an element.  Verbatim content is read to its end at once. -/
def start (assembly : Assembly) (tag : StartTag) (rest : List Char) : Assembly × List Char :=
  let head := ElementHead.ofTag assembly.parent tag
  if head.space = htmlNamespace then
    let behind := if paddedNames.contains head.name then dropLineFeed rest else rest
    match Part.named? head.name, readVerbatim? head.name behind with
    | some part, _ => (assembly.mark (.opens part head.attributes), rest)
    | none, some (content, after) =>
      (((assembly.enter head tag.name).addText content).closeInnermost, after)
    | none, none =>
      if voidNames.contains head.name then
        (assembly.place (.element head [] []), behind)
      else
        (assembly.enter head tag.name, behind)
  else if tag.selfClosing then
    (assembly.place (.element head [] []), rest)
  else
    (assembly.enter head tag.name, rest)

theorem start_suffix (assembly : Assembly) (tag : StartTag) (rest : List Char) :
    (assembly.start tag rest).2 <:+ rest := by
  have behind (padded : Bool) : (if padded then dropLineFeed rest else rest) <:+ rest := by
    cases padded
    · exact List.suffix_rfl
    · exact dropLineFeed_suffix rest
  unfold start
  dsimp only
  split
  · split
    · exact List.suffix_rfl
    · rename_i found
      exact (readVerbatim?_suffix found).trans (behind _)
    · split <;> exact behind _
  · split <;> exact List.suffix_rfl

/-- Reads a text on. -/
def read (assembly : Assembly) (text : List Char) : Assembly :=
  match _next : Token.next? assembly.inForeign text with
  | none => assembly
  | some (.start tag, rest) =>
    let started := assembly.start tag rest
    started.1.read started.2
  | some (.close name, rest) => (assembly.close name).read rest
  | some (.text content, rest) => (assembly.addText content).read rest
  | some (.comment content, rest) =>
    (assembly.place (.comment (String.ofList content))).read rest
  | some (.doctype, rest) => assembly.read rest
termination_by text.length
decreasing_by
  · exact Nat.lt_of_le_of_lt (assembly.start_suffix tag rest).length_le
      (Token.length_lt_of_next?_eq_some _next)
  all_goals exact Token.length_lt_of_next?_eq_some _next

end Assembly

/-- Makes every line end with a line feed alone. -/
def unifyLines : List Char → List Char
  | '\r' :: '\n' :: rest => '\n' :: unifyLines rest
  | '\r' :: rest => '\n' :: unifyLines rest
  | c :: rest => c :: unifyLines rest
  | [] => []

/-- The text without a byte order mark at its front. -/
def dropByteOrderMark : List Char → List Char
  | '\uFEFF' :: rest => rest
  | text => text

def itemsOf (text : String) : List Item :=
  (Assembly.empty.read (unifyLines (dropByteOrderMark text.toList))).finish

end FlatTree.Markup
