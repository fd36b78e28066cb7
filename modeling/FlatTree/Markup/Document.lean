import FlatTree.Markup.Assembly

/-!
# Documents

A document is one `html` element with a `head` and a `body`, and comments around and between them.  The
tags of all three may be left out of the text: what stands next tells which of them is open.  Metadata in
front of all other content belongs to the head, and all that no other part takes belongs to the body.

Documents are read as far as they are well formed: elements have end tags of their own and stand properly one
inside the other, attribute values are quoted, and characters are named by five references.  The repairs that
other documents ask for, in tables, forms, paragraphs or between tags that overlap, are not made.
-/

namespace FlatTree.Markup

/-- Where in a document its text has arrived.  The phases in front of the body are left for good; the
two behind it give way to the body when more content follows. -/
inductive Phase where
  | beforeHtml
  | beforeHead
  | inHead
  | afterHead
  | inBody
  | afterBody
  | afterHtml
deriving DecidableEq

/-- A document in the making.  All children are listed last one first. -/
structure Draft where
  phase : Phase
  htmlAttributes : List (String × String)
  headAttributes : List (String × String)
  bodyAttributes : List (String × String)
  /-- The children of the document in front of the `html` element. -/
  front : List Source
  /-- The children of the `html` element in front of the head. -/
  beforeHead : List Source
  head : List Source
  /-- The children of the `html` element between the head and the body. -/
  between : List Source
  body : List Source
  /-- The children of the `html` element behind the body. -/
  afterBody : List Source
  /-- The children of the document behind the `html` element. -/
  back : List Source

/-- The elements that the head takes before it is closed. -/
def metadataNames : List String :=
  ["base", "basefont", "bgsound", "link", "meta", "noframes", "noscript", "script", "style", "template",
    "title"]

/-- The elements that the head still takes when it is closed and the body has not begun. -/
def lateMetadataNames : List String :=
  metadataNames.erase "noscript"

/-- Whether an element with that head is one of the named elements of HTML. -/
def ElementHead.isAmong (head : ElementHead) (names : List String) : Bool :=
  head.space = htmlNamespace && names.contains head.name

/-- The attributes of an element that a second start tag adds to, where the first value counts. -/
def mergeAttributes (attributes others : List (String × String)) : List (String × String) :=
  attributes ++ others.filter fun other => (attributes.lookup other.1).isNone

namespace Draft

def empty : Draft :=
  ⟨.beforeHtml, [], [], [], [], [], [], [], [], [], []⟩

/-- Comments stay where they are written. -/
def addComment (draft : Draft) (comment : Source) : Draft :=
  match draft.phase with
  | .beforeHtml => { draft with front := comment :: draft.front }
  | .beforeHead => { draft with beforeHead := comment :: draft.beforeHead }
  | .inHead => { draft with head := comment :: draft.head }
  | .afterHead => { draft with between := comment :: draft.between }
  | .inBody => { draft with body := comment :: draft.body }
  | .afterBody => { draft with afterBody := comment :: draft.afterBody }
  | .afterHtml => { draft with back := comment :: draft.back }

def addToBody (draft : Draft) (content : List Char) : Draft :=
  { draft with body := placeText content draft.body }

/-- Blank text goes to where it is written, except that in front of the head it counts for nothing and
behind the body it still belongs to it. -/
def addBlank (draft : Draft) (content : List Char) : Draft :=
  match draft.phase with
  | .beforeHtml | .beforeHead => draft
  | .inHead => { draft with head := placeText content draft.head }
  | .afterHead => { draft with between := placeText content draft.between }
  | .inBody | .afterBody | .afterHtml => draft.addToBody content

/-- Text that is not blank opens the body behind its blank front. -/
def addText (draft : Draft) (content : List Char) : Draft :=
  let fronted := draft.addBlank (content.takeWhile Text.isAsciiBlank)
  match content.dropWhile Text.isAsciiBlank with
  | [] => fronted
  | rest => { fronted.addToBody rest with phase := .inBody }

def addElement (draft : Draft) (head : ElementHead) (element : Source) : Draft :=
  let inHead : Draft := { draft with head := element :: draft.head }
  let inBody : Draft := { draft with body := element :: draft.body, phase := .inBody }
  match draft.phase with
  | .beforeHtml | .beforeHead | .inHead =>
    if head.isAmong metadataNames then { inHead with phase := .inHead } else inBody
  | .afterHead => if head.isAmong lateMetadataNames then inHead else inBody
  | .inBody | .afterBody | .afterHtml => inBody

def openPart (draft : Draft) (attributes : List (String × String)) : Part → Draft
  | .html =>
    { draft with
      htmlAttributes := mergeAttributes draft.htmlAttributes attributes
      phase := if draft.phase = .beforeHtml then .beforeHead else draft.phase }
  | .head =>
    match draft.phase with
    | .beforeHtml | .beforeHead => { draft with headAttributes := attributes, phase := .inHead }
    | _ => draft
  | .body =>
    { draft with
      bodyAttributes := mergeAttributes draft.bodyAttributes attributes
      phase := .inBody }

def closePart (draft : Draft) : Part → Draft
  | .html => { draft with phase := .afterHtml }
  | .head =>
    match draft.phase with
    | .beforeHtml | .beforeHead | .inHead => { draft with phase := .afterHead }
    | _ => draft
  | .body => { draft with phase := .afterBody }

def add (draft : Draft) : Item → Draft
  | .node (.comment content) => draft.addComment (.comment content)
  | .node (.text content) => draft.addText content.toList
  | .node (.element head children contents) => draft.addElement head (.element head children contents)
  | .opens part attributes => draft.openPart attributes part
  | .closes part => draft.closePart part

/-- The children of the document. -/
def finish (draft : Draft) : List Source :=
  let part (name : String) (attributes : List (String × String)) (children : List Source) : Source :=
    .element ⟨htmlNamespace, name, attributes⟩ children []
  let children :=
    draft.beforeHead.reverse ++ part "head" draft.headAttributes draft.head.reverse ::
      draft.between.reverse ++ part "body" draft.bodyAttributes draft.body.reverse ::
      draft.afterBody.reverse
  draft.front.reverse ++ part "html" draft.htmlAttributes children :: draft.back.reverse

end Draft

/-- The children of the document that a text describes. -/
def documentOf (text : String) : List Source :=
  ((itemsOf text).foldl Draft.add .empty).finish

end FlatTree.Markup
