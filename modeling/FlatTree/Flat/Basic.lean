import FlatTree.NodeTree

/-!
# Parent and children in the flat tree

In the flat tree a shadow host has the content of its shadow root, and every slot is replaced by what it
stands for.  Children are found by replacing slots from above, parents by leaving slots from below.  Both
follow a slot only once on a way, so they end whatever the tree answers.
-/

namespace FlatTree.NodeTree

variable {ν : Type} [DecidableEq ν] (tree : NodeTree ν)

/-- The nodes that are left of `nodes` when `node` has been used up. -/
def without (nodes : List ν) (node : ν) : List ν :=
  nodes.filter (· ≠ node)

theorem length_without_lt {nodes : List ν} {node : ν} (mem : node ∈ nodes) :
    (without nodes node).length < nodes.length :=
  List.length_filter_lt_length_iff_exists.2 ⟨node, mem, by simp⟩

/-- What stands in place of `node` when the slots among `unused` may still be replaced. -/
def expand (unused : List ν) (node : ν) : List ν :=
  if tree.isSlot node then
    if _mem : node ∈ unused then
      (tree.standsFor node).flatMap fun shown => expand (without unused node) shown
    else
      []
  else
    [node]
termination_by unused.length
decreasing_by exact length_without_lt _mem

/-- The nodes that stand for the children of `node` before slots among them are replaced. -/
def unexpanded (node : ν) : List ν :=
  match tree.shadowRoot node with
  | some root => tree.children root
  | none => if tree.isSlot node then tree.standsFor node else tree.children node

/-- The children in the flat tree.  A node that is met again keeps its first place. -/
def flatChildren (node : ν) : List ν :=
  ((tree.unexpanded node).flatMap (tree.expand tree.nodes)).eraseDups

/-- The parent in the flat tree when the slots among `unused` may still be left. -/
def leaveSlots (unused : List ν) (node : ν) : Option ν :=
  match tree.assignedSlot node with
  | some slot => if _mem : slot ∈ unused then leaveSlots (without unused slot) slot else none
  | none =>
    match tree.parent node with
    | none => none
    | some parent =>
      if tree.nodeType parent = .shadowRoot then
        tree.host parent
      else if (tree.shadowRoot parent).isSome then
        none
      else if tree.isSlot parent then
        if (tree.assignedNodes parent).isEmpty then
          if _mem : parent ∈ unused then leaveSlots (without unused parent) parent else none
        else
          none
      else
        some parent
termination_by unused.length
decreasing_by all_goals exact length_without_lt _mem

/-- The parent in the flat tree.  The document, shadow roots and nodes that are shown nowhere have
none: the children of a host that are not assigned, and those of a slot that stands for others. -/
def flatParent (node : ν) : Option ν :=
  tree.leaveSlots tree.nodes node

end FlatTree.NodeTree
