import FlatTree.NodeTree
import FlatTree.Walk

/-!
# Stores of nodes

A store holds nodes under numbers in the order of their creation; the document is number zero.  A new
node stands alone until it is appended to another one.  A shadow root is never appended: it hangs on its
host, and the two name each other.  Every edit leaves a store, also where it fails.
-/

namespace FlatTree

inductive ShadowMode where
  | opened
  | closed
deriving DecidableEq

structure Element where
  name : String
  space : Option String
  /-- The attributes in the order in which they were first set. -/
  attributes : List (String × String)
deriving DecidableEq

inductive Content where
  | document
  | element (element : Element)
  | text (text : String)
  | comment (text : String)
  | shadowRoot (mode : ShadowMode)
deriving DecidableEq

def Content.nodeType : Content → NodeType
  | document => .document
  | element _ => .element
  | text _ => .text
  | comment _ => .comment
  | shadowRoot _ => .shadowRoot

structure StoredNode where
  content : Content
  parent : Option Nat
  children : List Nat
  shadowRoot : Option Nat
  host : Option Nat
deriving DecidableEq

def StoredNode.alone (content : Content) : StoredNode :=
  ⟨content, none, [], none, none⟩

structure Store where
  nodes : Array StoredNode

inductive StoreError where
  | noNode (node : Nat)
  | noChildren (node : Nat)
  | shadowRootAsChild
  | appendToItself (child parent : Nat)
  | appendToDescendant (child parent : Nat)
  | noElement (node : Nat)
  | hostNoElement
  | hostsAlready (node : Nat)
deriving DecidableEq

def StoreError.message : StoreError → String
  | noNode node => s!"there is no node {node}"
  | noChildren node => s!"node {node} cannot have children"
  | shadowRootAsChild => "shadow roots cannot be inserted into a tree"
  | appendToItself child parent =>
    s!"cannot append {child} to {parent}: Can not append a node to itself"
  | appendToDescendant child parent =>
    s!"cannot append {child} to {parent}: Can not append a node to, or insert it after, its descendant"
  | noElement node => s!"node {node} is not an element"
  | hostNoElement => "only elements can host a shadow root"
  | hostsAlready node => s!"element {node} already hosts a shadow root"

namespace Store

def new : Store :=
  ⟨#[.alone .document]⟩

def size (store : Store) : Nat :=
  store.nodes.size

def node? (store : Store) (node : Nat) : Option StoredNode :=
  store.nodes[node]?

def nodeType (store : Store) (node : Nat) : NodeType :=
  ((store.node? node).map fun stored => stored.content.nodeType).getD .document

def element? (store : Store) (node : Nat) : Option Element :=
  match store.node? node with
  | some ⟨.element element, _, _, _, _⟩ => some element
  | _ => none

def parent (store : Store) (node : Nat) : Option Nat :=
  (store.node? node).bind StoredNode.parent

def children (store : Store) (node : Nat) : List Nat :=
  ((store.node? node).map StoredNode.children).getD []

def shadowRoot (store : Store) (node : Nat) : Option Nat :=
  (store.node? node).bind StoredNode.shadowRoot

def host (store : Store) (node : Nat) : Option Nat :=
  (store.node? node).bind StoredNode.host

/-- The chain of parents above a node, nearest first. -/
def ancestors (store : Store) (node : Nat) : List Nat :=
  walk store.parent store.size node

/-- The root of the tree that holds a node, which may be the node itself. -/
def root (store : Store) (node : Nat) : Nat :=
  (store.ancestors node).getLast?.getD node

def update (store : Store) (node : Nat) (change : StoredNode → StoredNode) : Store :=
  ⟨store.nodes.modify node change⟩

/-- Adds a node that stands alone, and names it. -/
def create (store : Store) (content : Content) : Nat × Store :=
  (store.size, ⟨store.nodes.push (.alone content)⟩)

/-- A new element.  An empty namespace is none, and HTML names have no upper case. -/
def newElement (space : Option String) (name : String) : Element :=
  let space := space.filter (· ≠ "")
  ⟨if space = some htmlNamespace then Text.lowered name else name, space, []⟩

def createElement (store : Store) (space : Option String) (name : String) : Nat × Store :=
  store.create (.element (newElement space name))

/-- Takes a node away from its parent. -/
def detach (store : Store) (child : Nat) : Store :=
  match store.parent child with
  | none => store
  | some parent =>
    (store.update parent fun stored => { stored with children := stored.children.erase child }).update
      child fun stored => { stored with parent := none }

def attach (store : Store) (parent child : Nat) : Store :=
  (store.update parent fun stored => { stored with children := stored.children ++ [child] }).update
    child fun stored => { stored with parent := some parent }

/-- Makes a node the last child of another one, away from where it was. -/
def append (store : Store) (parent child : Nat) : Except StoreError Unit × Store :=
  if store.size ≤ parent then
    (.error (.noNode parent), store)
  else if store.size ≤ child then
    (.error (.noNode child), store)
  else if store.nodeType parent = .text || store.nodeType parent = .comment then
    (.error (.noChildren parent), store)
  else if store.nodeType child = .shadowRoot then
    (.error .shadowRootAsChild, store)
  else if parent = child then
    (.error (.appendToItself child parent), store)
  else if child ∈ store.ancestors parent then
    (.error (.appendToDescendant child parent), store)
  else
    (.ok (), (store.detach child).attach parent child)

/-- Replaces the value under a name, or adds the pair behind all others. -/
def setPair (name value : String) : List (String × String) → List (String × String)
  | [] => [(name, value)]
  | pair :: pairs => if pair.1 = name then (name, value) :: pairs else pair :: setPair name value pairs

/-- Sets an attribute under the lower-case form of its name. -/
def setAttribute (store : Store) (node : Nat) (name value : String) : Except StoreError Unit × Store :=
  match store.element? node with
  | none => (.error (.noElement node), store)
  | some element =>
    let attributes := setPair (Text.lowered name) value element.attributes
    (.ok (), store.update node fun stored => { stored with content := .element { element with attributes } })

/-- Hangs a new shadow root on an element, and names it. -/
def attachShadow (store : Store) (node : Nat) (mode : ShadowMode) : Except StoreError Nat × Store :=
  if store.nodeType node ≠ .element then
    (.error .hostNoElement, store)
  else if (store.shadowRoot node).isSome then
    (.error (.hostsAlready node), store)
  else
    let created := store.create (.shadowRoot mode)
    (.ok created.1,
      (created.2.update created.1 fun stored => { stored with host := some node }).update
        node fun stored => { stored with shadowRoot := some created.1 })

end Store

/-- One step in the making of a store. -/
inductive Edit where
  | createElement (space : Option String) (name : String)
  | createText (text : String)
  | createComment (text : String)
  | append (parent child : Nat)
  | setAttribute (node : Nat) (name value : String)
  | attachShadow (node : Nat) (mode : ShadowMode)

/-- What comes of an edit, which is the node that was created, if any, and the store that it leaves. -/
def Store.apply (store : Store) : Edit → Except StoreError (Option Nat) × Store
  | .createElement space name => (store.createElement space name).map (.ok ∘ some) id
  | .createText text => (store.create (.text text)).map (.ok ∘ some) id
  | .createComment text => (store.create (.comment text)).map (.ok ∘ some) id
  | .append parent child => (store.append parent child).map (Except.map fun _ => none) id
  | .setAttribute node name value => (store.setAttribute node name value).map (Except.map fun _ => none) id
  | .attachShadow node mode => (store.attachShadow node mode).map (Except.map some) id

/-- The store that a sequence of edits makes, whichever of them fail. -/
def Store.ofEdits (edits : List Edit) : Store :=
  edits.foldl (fun store edit => (store.apply edit).2) .new

end FlatTree
