import FlatTree.Flat.Descendants
import FlatTree.Flat.Siblings
import FlatTree.Selector.Parser

/-!
# Queries

A query looks for elements among the flat descendants of a context, which is the document unless another
node is given.  Answers are in document order and name each element once.  A selector that does not parse
is the only way for a query to fail.
-/

namespace FlatTree.Query

open Selector

variable {ν : Type} [DecidableEq ν] (tree : NodeTree ν)

/-- The elements that a query can find. -/
def candidates (context : Option ν) : List ν :=
  (tree.flatDescendants (context.getD tree.document)).filter tree.isElement

def all (list : SelectorList) (context : Option ν) : List ν :=
  let view := tree.flatView
  (candidates tree context).filter fun element => view.acceptsList element list

def first (list : SelectorList) (context : Option ν) : Option ν :=
  let view := tree.flatView
  (candidates tree context).find? fun element => view.acceptsList element list

def holdsAt (list : SelectorList) (node : ν) : Bool :=
  tree.isElement node && tree.flatView.acceptsList node list

/-- The nearest match among a node and its flat ancestors. -/
def nearest (list : SelectorList) (context : Option ν) : Option ν :=
  let node := context.getD tree.document
  let view := tree.flatView
  (node :: walk tree.flatParent tree.nodes.length node).find? fun node =>
    tree.isElement node && view.acceptsList node list

/-- The elements that have all the classes in a list of names between blanks. -/
def byClass (names : String) (context : Option ν) : List ν :=
  all tree (.ofClasses (Text.tokens names)) context

/-- The elements with a name, where HTML elements are known by its lower-case form and `*` is the name
of every element. -/
def byTag (name : String) (context : Option ν) : List ν :=
  if name = "*" then
    candidates tree context
  else
    (candidates tree context).filter fun element =>
      tree.localName element = if tree.isHtmlElement element then Text.lowered name else name

/-- The elements with a namespace and a name, where `*` stands for any of them and the empty text for
no namespace. -/
def byTagIn (space name : String) (context : Option ν) : List ν :=
  let wanted := if space = "" then none else some space
  (candidates tree context).filter fun element =>
    (space = "*" || tree.space element = wanted) && (name = "*" || tree.localName element = name)

def byId (name : String) (context : Option ν) : Option ν :=
  if name = "" then
    none
  else
    (candidates tree context).find? fun element => tree.id element = some name

def byName (name : String) (context : Option ν) : List ν :=
  (candidates tree context).filter fun element => tree.attributeValue element "name" = some name

end FlatTree.Query
