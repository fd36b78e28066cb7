import FlatTree.Text.Ascii

/-!
# Node trees with shadow roots

A node tree is given by what it answers about its nodes.  The children of a shadow root have that root
as their parent, and the children of a shadow host stay its children wherever slots show them.  Nothing
forces the answers to agree with each other; what holds of agreeing answers is stated where it is used.
Identifiers and classes are always those that the attributes tell, and the namespace always tells whether an
element is one of HTML.
-/

namespace FlatTree

def htmlNamespace : String := "http://www.w3.org/1999/xhtml"

inductive NodeType where
  | document
  | element
  | text
  | comment
  | shadowRoot
deriving DecidableEq

structure NodeTree (ν : Type) where
  nodes : List ν
  document : ν
  nodeType : ν → NodeType
  parent : ν → Option ν
  children : ν → List ν
  shadowRoot : ν → Option ν
  host : ν → Option ν
  isSlot : ν → Bool
  assignedNodes : ν → List ν
  assignedSlot : ν → Option ν
  localName : ν → String
  /-- The namespace of an element, if it has one. -/
  space : ν → Option String
  attributeValue : ν → String → Option String

namespace NodeTree

variable {ν : Type} (tree : NodeTree ν)

def isElement (node : ν) : Bool :=
  tree.nodeType node = .element

def isHtmlElement (node : ν) : Bool :=
  tree.space node = some htmlNamespace

def id (node : ν) : Option String :=
  tree.attributeValue node "id"

def hasClass (node : ν) (name : String) : Bool :=
  (tree.attributeValue node "class").any fun names => (Text.tokens names).contains name

/-- The nodes that a slot stands for: those assigned to it, or else its own children. -/
def standsFor (slot : ν) : List ν :=
  match tree.assignedNodes slot with
  | [] => tree.children slot
  | assigned => assigned

end NodeTree

end FlatTree
