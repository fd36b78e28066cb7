import FlatTree.Flat.Basic
import FlatTree.Selector.Matching

/-!
# Siblings in the flat tree

The siblings of a node are the children of its flat parent.  Structural pseudo-classes count only the
elements among them.
-/

namespace FlatTree.NodeTree

variable {ν : Type} [DecidableEq ν] (tree : NodeTree ν)

/-- The siblings before and behind a node that is among the children of its flat parent. -/
def flatSiblings (node : ν) : Option (List ν × List ν) :=
  match tree.flatParent node with
  | none => none
  | some parent =>
    let siblings := tree.flatChildren parent
    match siblings.dropWhile (· ≠ node) with
    | [] => none
    | _ :: behind => some (siblings.takeWhile (· ≠ node), behind)

def flatPrevious (node : ν) : Option ν :=
  (tree.flatSiblings node).bind fun siblings => siblings.1.getLast?

def flatNext (node : ν) : Option ν :=
  (tree.flatSiblings node).bind fun siblings => siblings.2.head?

/-- The nearest element before a node in a list that holds the node. -/
def previousElementAmong (siblings : List ν) (node : ν) : Option ν :=
  if node ∈ siblings then
    (siblings.takeWhile (· ≠ node)).reverse.find? tree.isElement
  else
    none

/-- The place of an element among the elements of a list that holds it. -/
def rankAmong (siblings : List ν) (node : ν) : Option Selector.Rank :=
  let elements := siblings.filter tree.isElement
  if node ∈ elements then some ⟨elements.idxOf node + 1, elements.length⟩ else none

def flatPreviousElement (node : ν) : Option ν :=
  (tree.flatParent node).bind fun parent =>
    tree.previousElementAmong (tree.flatChildren parent) node

/-- The place of an element among the elements that its flat parent has as children. -/
def flatRank (node : ν) : Option Selector.Rank :=
  (tree.flatParent node).bind fun parent => tree.rankAmong (tree.flatChildren parent) node

/-- The children of every node in the flat tree, each list made when it is first asked for. -/
def childrenTable : List (ν × Thunk (List ν)) :=
  tree.nodes.map fun node => (node, Thunk.mk fun _ => tree.flatChildren node)

def childrenIn (table : List (ν × Thunk (List ν))) (node : ν) : List ν :=
  match table.lookup node with
  | some children => children.get
  | none => tree.flatChildren node

theorem childrenIn_childrenTable (node : ν) :
    tree.childrenIn tree.childrenTable node = tree.flatChildren node := by
  unfold childrenIn childrenTable
  induction tree.nodes with
  | nil => rfl
  | cons first nodes ih =>
    by_cases same : node = first
    · simp [same, Thunk.get]
    · simpa [List.lookup_cons, beq_false_of_ne same] using ih

/-- The flat tree as selectors see it.  A walk that ends meets no node twice, so it is never longer
than the list of nodes. -/
def flatView : Selector.ElementView ν :=
  let table := tree.childrenTable
  let children := tree.childrenIn table
  { parent := tree.flatParent
    previous := fun node =>
      (tree.flatParent node).bind fun parent => tree.previousElementAmong (children parent) node
    isElement := tree.isElement
    isHtml := tree.isHtmlElement
    localName := tree.localName
    id := tree.id
    hasClass := tree.hasClass
    attributeValue := tree.attributeValue
    rank := fun node =>
      (tree.flatParent node).bind fun parent => tree.rankAmong (children parent) node
    reach := fun _ => tree.nodes.length }

theorem flatView_previous : tree.flatView.previous = tree.flatPreviousElement := by
  funext node
  simp only [flatView, flatPreviousElement, childrenIn_childrenTable]

theorem flatView_rank : tree.flatView.rank = tree.flatRank := by
  funext node
  simp only [flatView, flatRank, childrenIn_childrenTable]

end FlatTree.NodeTree
