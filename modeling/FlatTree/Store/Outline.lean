import FlatTree.Store.Slots

/-!
# Outlines of a store

The outline writes the document line by line, children one step further in than their parent and a shadow
root before the other children of its host.  The shadow-including order lists nodes as the outline opens
them.
-/

namespace FlatTree.Store

/-- What follows a node one step further in: its shadow root, then its children. -/
def shownBelow (store : Store) (node : Nat) : List Nat :=
  (store.shadowRoot node).toList ++ store.children node

def listIncluding (store : Store) : (levels : Nat) → Nat → List Nat
  | 0, _ => []
  | levels + 1, node => node :: (store.shownBelow node).flatMap (listIncluding store levels)

/-- A node and all nodes below it, shadow trees included. -/
def shadowIncluding (store : Store) (node : Nat) : List Nat :=
  store.listIncluding store.size node

def escapeText (text : String) : String :=
  String.ofList <| text.toList.flatMap fun c =>
    match c with
    | '\\' => ['\\', '\\']
    | '"' => ['\\', '"']
    | '\n' => ['\\', 'n']
    | '\r' => ['\\', 'r']
    | '\t' => ['\\', 't']
    | c => [c]

structure Line where
  depth : Nat
  node : Nat
  /-- Whether the line is the first of its node. -/
  opens : Bool
  content : String

def Line.text (line : Line) : String :=
  String.ofList (List.replicate (2 * line.depth) ' ') ++ line.content ++ "\n"

def modeLabel : ShadowMode → String
  | .opened => "Open"
  | .closed => "Closed"

/-- The opening tag with its attributes in the order of their names. -/
def openingTag (element : Element) : String :=
  let pairs := element.attributes.mergeSort fun left right => decide (left.1 ≤ right.1)
  "<" ++ element.name ++
    String.join (pairs.map fun pair => " " ++ pair.1 ++ "=\"" ++ escapeText pair.2 ++ "\"") ++ ">"

def closingTag (element : Element) : String :=
  "</" ++ element.name ++ ">"

def openingLine : Content → String
  | .document => "#document"
  | .shadowRoot mode => "#shadow-root (" ++ modeLabel mode ++ ")"
  | .element element => openingTag element
  | .text text => "\"" ++ escapeText text ++ "\""
  | .comment text => "<!--" ++ text ++ "-->"

def outlineLines (store : Store) : (levels depth : Nat) → Nat → List Line
  | 0, _, _ => []
  | levels + 1, depth, node =>
    match store.node? node with
    | none => []
    | some stored =>
      ⟨depth, node, true, openingLine stored.content⟩ ::
        (store.shownBelow node).flatMap (outlineLines store levels (depth + 1)) ++
        match stored.content with
        | .element element => [⟨depth, node, false, closingTag element⟩]
        | _ => []

def outline (store : Store) : String :=
  "Dom\n" ++ String.join ((store.outlineLines store.size 0 0).map Line.text)

/-- A short name for a node: an element's name and classes, or the kind of any other node. -/
def label (store : Store) (node : Nat) : String :=
  match store.element? node with
  | some element =>
    let classes := Text.tokens ((element.attributes.lookup "class").getD "")
    element.name ++ String.join (classes.map ("." ++ ·))
  | none =>
    match store.nodeType node with
    | .document => "#document"
    | .element => "#element"
    | .text => "#text"
    | .comment => "#comment"
    | .shadowRoot => "#shadowroot"

end FlatTree.Store
