import FlatTree.Flat.Basic

/-!
# Descendants in the flat tree

The descendants of a node are listed in document order, each of them once.
-/

namespace FlatTree.NodeTree

variable {ν : Type} [DecidableEq ν] (tree : NodeTree ν)

/-- Lists the nodes on the stack, and below each of them its descendants, as far as they are among
the nodes still to be met. -/
def listBelow (unmet : List ν) : (stack : List ν) → List ν
  | [] => []
  | node :: stack =>
    if _mem : node ∈ unmet then
      node :: listBelow (without unmet node) (tree.flatChildren node ++ stack)
    else
      listBelow unmet stack
termination_by stack => (unmet.length, stack.length)
decreasing_by
  · exact Prod.Lex.left _ _ (length_without_lt _mem)
  · exact Prod.Lex.right _ (by simp)

/-- A node is its own descendant only if the flat tree leads back to it. -/
def flatDescendants (node : ν) : List ν :=
  tree.listBelow tree.nodes (tree.flatChildren node)

end FlatTree.NodeTree
