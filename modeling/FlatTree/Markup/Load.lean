import FlatTree.Markup.Document
import FlatTree.Store.Basic
import FlatTree.Text.Blank

/-!
# Loading documents into a store

Nodes are created in document order, an element before its content.  Text of white space alone is left
out.  A template that declares a shadow root becomes the shadow root of its parent, if the parent can still
host one; any other template stays an element without children.
-/

namespace FlatTree.Markup

/-- The mode of the shadow root that an element declares.  The first attribute that could declare a mode
decides. -/
def ElementHead.declaredMode (head : ElementHead) : Option ShadowMode :=
  if head.name = "template" then
    match head.attributes.find? fun pair => pair.1 = "shadowrootmode" || pair.1 = "shadowroot" with
    | none => none
    | some pair =>
      if Text.lowered pair.2 = "open" then some .opened
      else if Text.lowered pair.2 = "closed" then some .closed
      else none
  else
    none

/-- The mode of the shadow root that an element makes of itself below a node. -/
def shadowFor (store : Store) (parent : Nat) (head : ElementHead) : Option ShadowMode :=
  if (store.element? parent).isSome && (store.shadowRoot parent).isNone then
    head.declaredMode
  else
    none

/-- The store that an edit leaves, if it goes through. -/
def ifDone {α : Type} : Except StoreError α × Store → Except StoreError Store
  | (.ok _, store) => .ok store
  | (.error error, _) => .error error

def placeContent (store : Store) (parent : Nat) (content : Content) : Except StoreError Store :=
  let created := store.create content
  ifDone (created.2.append parent created.1)

/-- Creates an element with its attributes as the last child of a node. -/
def placeElement (store : Store) (parent : Nat) (head : ElementHead) :
    Except StoreError (Nat × Store) := do
  let created := store.createElement (some head.space) head.name
  let attributed ← head.attributes.foldlM
    (fun store pair => ifDone (store.setAttribute created.1 pair.1 pair.2)) created.2
  let placed ← ifDone (attributed.append parent created.1)
  return (created.1, placed)

mutual

def load (store : Store) (parent : Nat) : Source → Except StoreError Store
  | .text content =>
    if content.toList.all Text.isBlank then
      .ok store
    else
      placeContent store parent (.text content)
  | .comment content => placeContent store parent (.comment content)
  | .element head children contents =>
    match shadowFor store parent head with
    | some mode =>
      match store.attachShadow parent mode with
      | (.error error, _) => .error error
      | (.ok root, store) => loadAll store root contents
    | none =>
      match placeElement store parent head with
      | .error error => .error error
      | .ok (node, store) => loadAll store node children
termination_by structural source => source

def loadAll (store : Store) (parent : Nat) : List Source → Except StoreError Store
  | [] => .ok store
  | source :: sources =>
    match load store parent source with
    | .error error => .error error
    | .ok store => loadAll store parent sources
termination_by structural sources => sources

end

/-- Loads the document that a text describes. -/
def storeOf (text : String) : Except StoreError Store :=
  loadAll .new 0 (documentOf text)

end FlatTree.Markup
