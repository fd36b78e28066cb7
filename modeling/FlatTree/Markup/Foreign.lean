import FlatTree.Markup.Source
import FlatTree.Markup.Token
import FlatTree.NodeTree

/-!
# Foreign content

Inside `svg` and `math` elements names belong to other vocabularies, until an element is reached whose
content is HTML again.  Names in SVG have a fixed spelling with capital letters, which the lower-case form
of a tag stands for.
-/

namespace FlatTree.Markup

def svgNamespace : String := "http://www.w3.org/2000/svg"

def mathNamespace : String := "http://www.w3.org/1998/Math/MathML"

/-- The names of SVG elements that have capital letters. -/
def svgNames : List String :=
  ["altGlyph", "altGlyphDef", "altGlyphItem", "animateColor", "animateMotion", "animateTransform",
    "clipPath", "feBlend", "feColorMatrix", "feComponentTransfer", "feComposite", "feConvolveMatrix",
    "feDiffuseLighting", "feDisplacementMap", "feDistantLight", "feDropShadow", "feFlood", "feFuncA",
    "feFuncB", "feFuncG", "feFuncR", "feGaussianBlur", "feImage", "feMerge", "feMergeNode",
    "feMorphology", "feOffset", "fePointLight", "feSpecularLighting", "feSpotLight", "feTile",
    "feTurbulence", "foreignObject", "glyphRef", "linearGradient", "radialGradient", "textPath"]

def svgName (name : String) : String :=
  (svgNames.find? fun spelled => Text.lowered spelled = name).getD name

/-- Foreign attributes with a namespace of their own, and their local names. -/
def foreignAttributes : List (String × String) :=
  [("xlink:actuate", "actuate"), ("xlink:arcrole", "arcrole"), ("xlink:href", "href"),
    ("xlink:role", "role"), ("xlink:show", "show"), ("xlink:title", "title"), ("xlink:type", "type"),
    ("xml:lang", "lang"), ("xml:space", "space"), ("xmlns:xlink", "xlink")]

def foreignAttribute (pair : String × String) : String × String :=
  ((foreignAttributes.lookup pair.1).getD pair.1, pair.2)

/-- The elements of SVG whose content is HTML. -/
def svgWithHtml : List String :=
  ["foreignObject", "desc", "title"]

/-- The elements of MathML whose text and elements are HTML. -/
def mathWithHtml : List String :=
  ["mi", "mo", "mn", "ms", "mtext"]

/-- Whether an annotation declares its content to be HTML. -/
def annotatesHtml (parent : ElementHead) : Bool :=
  parent.name = "annotation-xml" &&
    ((parent.attributes.lookup "encoding").map Text.lowered).any fun encoding =>
      encoding = "text/html" || encoding = "application/xhtml+xml"

/-- Whether a tag inside `parent` is read as HTML. -/
def readsHtml (parent : ElementHead) (name : String) : Bool :=
  if parent.space = svgNamespace then
    svgWithHtml.contains parent.name
  else if parent.space = mathNamespace then
    mathWithHtml.contains parent.name && name ≠ "mglyph" && name ≠ "malignmark" ||
      annotatesHtml parent || parent.name = "annotation-xml" && name = "svg"
  else
    true

/-- The element of a start tag that stands in `parent`, or outside of all elements. -/
def ElementHead.ofTag (parent : Option ElementHead) (tag : StartTag) : ElementHead :=
  let space :=
    if parent.all (readsHtml · tag.name) then
      if tag.name = "svg" then svgNamespace
      else if tag.name = "math" then mathNamespace
      else htmlNamespace
    else
      (parent.map ElementHead.space).getD htmlNamespace
  if space = htmlNamespace then
    ⟨space, tag.name, tag.attributes⟩
  else
    ⟨space, if space = svgNamespace then svgName tag.name else tag.name,
      tag.attributes.map foreignAttribute⟩

end FlatTree.Markup
