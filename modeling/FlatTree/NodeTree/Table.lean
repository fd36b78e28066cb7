import FlatTree.NodeTree

/-!
# Node trees given row by row

A table lists what a tree answers about each of its nodes.  The first row is the document.  Rows may
contradict each other.
-/

namespace FlatTree.NodeTree

structure Row where
  nodeType : NodeType
  parent : Option Nat
  children : List Nat
  shadowRoot : Option Nat
  host : Option Nat
  isSlot : Bool
  assignedNodes : List Nat
  assignedSlot : Option Nat
  localName : String
  space : Option String
  attributes : List (String × String)

/-- What is answered about a node without a row. -/
def Row.missing : Row :=
  ⟨.element, none, [], none, none, false, [], none, "", none, []⟩

def ofRows (rows : Array Row) : NodeTree Nat :=
  let row (node : Nat) : Row := rows[node]?.getD .missing
  { nodes := List.range rows.size
    document := 0
    nodeType := fun node => (row node).nodeType
    parent := fun node => (row node).parent
    children := fun node => (row node).children
    shadowRoot := fun node => (row node).shadowRoot
    host := fun node => (row node).host
    isSlot := fun node => (row node).isSlot
    assignedNodes := fun node => (row node).assignedNodes
    assignedSlot := fun node => (row node).assignedSlot
    localName := fun node => (row node).localName
    space := fun node => (row node).space
    attributeValue := fun node name => (row node).attributes.lookup name }

end FlatTree.NodeTree
