import FlatTree.Store.Basic

/-!
# Slot assignment

A slot is a `slot` element below a shadow root.  The children of the host go to the first slot in tree
order whose name they ask for: elements ask by their `slot` attribute, text asks for the nameless slot,
and other nodes are never assigned.
-/

namespace FlatTree.Store

def attribute? (store : Store) (node : Nat) (name : String) : Option String :=
  (store.element? node).bind fun element => element.attributes.lookup name

/-- A node and the nodes below it to a given depth, in tree order. -/
def listTree (store : Store) : (levels : Nat) → Nat → List Nat
  | 0, _ => []
  | levels + 1, node => node :: (store.children node).flatMap (listTree store levels)

/-- A node and all nodes below it, in tree order. -/
def descendants (store : Store) (node : Nat) : List Nat :=
  store.listTree store.size node

def hasSlotTag (store : Store) (node : Nat) : Bool :=
  (store.element? node).any fun element => element.name = "slot"

/-- The shadow root whose tree holds a node. -/
def enclosingRoot (store : Store) (node : Nat) : Option Nat :=
  if store.nodeType (store.root node) = .shadowRoot then some (store.root node) else none

def isSlot (store : Store) (node : Nat) : Bool :=
  store.hasSlotTag node && (store.enclosingRoot node).isSome

def nameOfSlot (store : Store) (slot : Nat) : String :=
  (store.attribute? slot "name").getD ""

/-- The name of the slot that a child of a host asks for. -/
def wantedSlot (store : Store) (node : Nat) : Option String :=
  match store.nodeType node with
  | .element => some ((store.attribute? node "slot").getD "")
  | .text => some ""
  | _ => none

/-- The first slot of a name in the tree of a shadow root. -/
def firstSlot (store : Store) (root : Nat) (name : String) : Option Nat :=
  (store.descendants root).find? fun node =>
    store.hasSlotTag node && store.nameOfSlot node = name

/-- Of several slots with one name only the first has nodes assigned. -/
def assignedNodes (store : Store) (slot : Nat) : List Nat :=
  match store.enclosingRoot slot with
  | none => []
  | some root =>
    let name := store.nameOfSlot slot
    if store.firstSlot root name = some slot then
      match store.host root with
      | none => []
      | some host => (store.children host).filter fun child => store.wantedSlot child = some name
    else
      []

def assignedSlot (store : Store) (node : Nat) : Option Nat :=
  match store.wantedSlot node with
  | none => none
  | some name =>
    ((store.parent node).bind store.shadowRoot).bind fun root => store.firstSlot root name

def toTree (store : Store) : NodeTree Nat where
  nodes := List.range store.size
  document := 0
  nodeType := store.nodeType
  parent := store.parent
  children := store.children
  shadowRoot := store.shadowRoot
  host := store.host
  isSlot := store.isSlot
  assignedNodes := store.assignedNodes
  assignedSlot := store.assignedSlot
  localName := fun node => ((store.element? node).map Element.name).getD ""
  space := fun node => (store.element? node).bind Element.space
  attributeValue := store.attribute?

end FlatTree.Store
