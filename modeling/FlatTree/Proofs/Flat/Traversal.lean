import FlatTree.Proofs.Flat.Descendants
import Mathlib.Data.Fin.VecNotation

/-!
# The stack and the recursive search

Descendants are listed with a stack on which a node may lie several times, since it counts as met only when
it is taken from the stack.  The list is nevertheless that of the recursive search, which goes through the
flat children from left to right and passes over nodes that it has visited.  Both are told here without a
bound on their steps, as runs that know the nodes met so far.  They end on every tree that names finitely
many nodes, and what is on the stack is what is left to the calls of the recursive search.
-/

namespace FlatTree.NodeTree

open Relation

variable {ν : Type}

/-- All nodes that the tree lists anywhere are among its nodes. -/
structure ListsNodes (tree : NodeTree ν) : Prop where
  mem_of_mem_children : ∀ node, ∀ child ∈ tree.children node, child ∈ tree.nodes
  mem_of_mem_assignedNodes : ∀ slot, ∀ node ∈ tree.assignedNodes slot, node ∈ tree.nodes

/-- The run over a stack of nodes, the next one on top, that goes on with the nodes below each of them.  It
knows the nodes met so far, and lists a node when it takes it from the stack for the first time. -/
inductive Collects (below : ν → List ν) : (met stack result : List ν) → Prop where
  | finished {met : List ν} : Collects below met [] []
  | again {met stack result : List ν} {node : ν} (mem : node ∈ met)
      (rest : Collects below met stack result) : Collects below met (node :: stack) result
  | first {met stack result : List ν} {node : ν} (not_mem : node ∉ met)
      (rest : Collects below (node :: met) (below node ++ stack) result) :
      Collects below met (node :: stack) (node :: result)

section Runs

variable [DecidableEq ν]

/-- The run over a stack that goes on with the flat children of each node. -/
abbrev Traverses (tree : NodeTree ν) : (met stack result : List ν) → Prop :=
  Collects tree.flatChildren

/-- The recursive search through the entries.  It knows the nodes visited so far, in the order of their
visits; it passes over an entry that has been visited and searches the flat children of any other one before
it goes on. -/
inductive Searches (tree : NodeTree ν) : (visited entries result : List ν) → Prop where
  | finished {visited : List ν} : Searches tree visited [] visited
  | known {visited entries result : List ν} {node : ν} (mem : node ∈ visited)
      (rest : Searches tree visited entries result) : Searches tree visited (node :: entries) result
  | fresh {visited entries middle result : List ν} {node : ν} (not_mem : node ∉ visited)
      (inner : Searches tree (visited ++ [node]) (tree.flatChildren node) middle)
      (rest : Searches tree middle entries result) : Searches tree visited (node :: entries) result

variable {tree : NodeTree ν}

/-! ## Runs have one result -/

omit [DecidableEq ν] in
theorem Collects.unique {below : ν → List ν} {met stack result other : List ν}
    (hcollects : Collects below met stack result) (hother : Collects below met stack other) :
    result = other := by
  induction hcollects generalizing other with
  | finished =>
      cases hother
      rfl
  | again hmem _ ih =>
      cases hother with
      | again _ hrest => exact ih hrest
      | first hnew _ => exact absurd hmem hnew
  | first hnew _ ih =>
      cases hother with
      | again hmem _ => exact absurd hmem hnew
      | first _ hrest => rw [ih hrest]

theorem Searches.unique {visited entries result other : List ν}
    (hsearches : tree.Searches visited entries result) (hother : tree.Searches visited entries other) :
    result = other := by
  induction hsearches generalizing other with
  | finished =>
      cases hother
      rfl
  | known hmem _ ih =>
      cases hother with
      | known _ hrest => exact ih hrest
      | fresh hnew _ _ => exact absurd hmem hnew
  | fresh hnew _ _ ihInner ihRest =>
      cases hother with
      | known hmem _ => exact absurd hmem hnew
      | fresh _ hinner hrest =>
          obtain rfl := ihInner hinner
          exact ihRest hrest

/-- A search through two lists in a row visits the first one and goes on with the second. -/
theorem Searches.exists_middle {front back visited result : List ν}
    (hsearches : tree.Searches visited (front ++ back) result) :
    ∃ middle, tree.Searches visited front middle ∧ tree.Searches middle back result := by
  induction front generalizing visited with
  | nil => exact ⟨visited, .finished, hsearches⟩
  | cons node front ih =>
      cases hsearches with
      | known hmem hrest =>
          obtain ⟨middle, hfront, hback⟩ := ih hrest
          exact ⟨middle, .known hmem hfront, hback⟩
      | fresh hnew hinner hrest =>
          obtain ⟨middle, hfront, hback⟩ := ih hrest
          exact ⟨middle, .fresh hnew hinner hfront, hback⟩

/-! ## The list of descendants is the result of both -/

/-- What is still to be met of the listed nodes is what has not been met. -/
def Unmet (tree : NodeTree ν) (unmet met : List ν) : Prop :=
  ∀ node ∈ tree.nodes, node ∈ unmet ↔ node ∉ met

theorem Unmet.without {unmet met : List ν} (hunmet : tree.Unmet unmet met) (node : ν) :
    tree.Unmet (without unmet node) (node :: met) := by
  intro other hother
  rw [mem_without, hunmet other hother, List.mem_cons, not_or]
  exact and_comm

omit [DecidableEq ν] in
theorem ListsNodes.mem_of_mem_standsFor (hlists : tree.ListsNodes) {slot node : ν}
    (hmem : node ∈ tree.standsFor slot) : node ∈ tree.nodes := by
  rcases mem_standsFor_iff.mp hmem with hassigned | ⟨-, hchild⟩
  · exact hlists.mem_of_mem_assignedNodes slot node hassigned
  · exact hlists.mem_of_mem_children slot node hchild

omit [DecidableEq ν] in
theorem ListsNodes.mem_of_mem_unexpanded (hlists : tree.ListsNodes) {node entry : ν}
    (hmem : entry ∈ tree.unexpanded node) : entry ∈ tree.nodes := by
  rw [unexpanded] at hmem
  split at hmem
  · exact hlists.mem_of_mem_children _ entry hmem
  · split at hmem
    · exact hlists.mem_of_mem_standsFor hmem
    · exact hlists.mem_of_mem_children node entry hmem

theorem ListsNodes.mem_of_mem_flatChildren (hlists : tree.ListsNodes) {node child : ν}
    (hmem : child ∈ tree.flatChildren node) : child ∈ tree.nodes := by
  rw [flatChildren, List.mem_eraseDups, List.mem_flatMap] at hmem
  obtain ⟨entry, hentry, hchild⟩ := hmem
  obtain ⟨-, hpath⟩ := mem_expand_iff.mp hchild
  rcases hpath.cases_tail with rfl | ⟨slot, -, -, hshows⟩
  · exact hlists.mem_of_mem_unexpanded hentry
  · exact hlists.mem_of_mem_standsFor hshows.2

theorem ListsNodes.traverses_listBelow (hlists : tree.ListsNodes) {unmet met stack : List ν}
    (hunmet : tree.Unmet unmet met) (hstack : ∀ node ∈ stack, node ∈ tree.nodes) :
    tree.Traverses met stack (tree.listBelow unmet stack) := by
  fun_induction tree.listBelow unmet stack generalizing met with
  | case1 => exact .finished
  | case2 unmet node stack hmem ih =>
      rw [List.forall_mem_cons] at hstack
      refine .first ((hunmet node hstack.1).mp hmem) (ih (hunmet.without node) ?_)
      rw [List.forall_mem_append]
      exact ⟨fun child hchild => hlists.mem_of_mem_flatChildren hchild, hstack.2⟩
  | case3 unmet node stack hmem ih =>
      rw [List.forall_mem_cons] at hstack
      have hmet : node ∈ met := by
        rw [hunmet node hstack.1, not_not] at hmem
        exact hmem
      exact .again hmet (ih hunmet hstack.2)

/-- The stack holds what the calls of the recursive search have still to go through, the innermost call on
top. -/
theorem Traverses.searches {met stack result : List ν} (htraverses : tree.Traverses met stack result)
    {visited : List ν} (hvisited : ∀ node, node ∈ visited ↔ node ∈ met) :
    tree.Searches visited stack (visited ++ result) := by
  induction htraverses generalizing visited with
  | finished =>
      rw [List.append_nil]
      exact .finished
  | again hmem _ ih => exact .known ((hvisited _).mpr hmem) (ih hvisited)
  | @first met stack result node hnew _ ih =>
      have hmore : ∀ other, other ∈ visited ++ [node] ↔ other ∈ node :: met := by
        intro other
        rw [List.mem_append, List.mem_singleton, List.mem_cons, hvisited, or_comm]
      obtain ⟨middle, hinner, hrest⟩ := (ih hmore).exists_middle
      rw [List.append_cons]
      exact .fresh (mt (hvisited node).mp hnew) hinner hrest

/-- Whatever a tree answers about its nodes, the walk over a stack and the recursive search end below every
node, and the list of descendants is the one result that they can have.  It holds no node twice, and holds
the nodes that one or more steps to a flat child lead to; the node itself is one of them only if such steps
lead back to it. -/
theorem flatDescendants_eq_search (tree : NodeTree ν) (hlists : tree.ListsNodes) (node : ν) :
    (∀ result, tree.Traverses [] (tree.flatChildren node) result ↔ result = tree.flatDescendants node) ∧
    (∀ result, tree.Searches [] (tree.flatChildren node) result ↔ result = tree.flatDescendants node) ∧
    (tree.flatDescendants node).Nodup ∧
    ∀ below, below ∈ tree.flatDescendants node ↔ TransGen tree.Parents node below := by
  have htraverses : tree.Traverses [] (tree.flatChildren node) (tree.flatDescendants node) :=
    hlists.traverses_listBelow (fun other hother => iff_of_true hother List.not_mem_nil)
      fun child hchild => hlists.mem_of_mem_flatChildren hchild
  have hsearches : tree.Searches [] (tree.flatChildren node) (tree.flatDescendants node) :=
    htraverses.searches fun _ => Iff.rfl
  refine ⟨?_, ?_, nodup_flatDescendants node, fun below => mem_flatDescendants_iff ?_⟩
  · intro result
    constructor
    · exact fun hresult => hresult.unique htraverses
    · rintro rfl
      exact htraverses
  · intro result
    constructor
    · exact fun hresult => hresult.unique hsearches
    · rintro rfl
      exact hsearches
  · intro other hpath
    obtain ⟨parent, -, hchild⟩ := TransGen.tail'_iff.mp hpath
    exact hlists.mem_of_mem_flatChildren hchild

end Runs

/-- Node 3 is a child of nodes 1 and 2 and of itself, and node 1 is a child of its child 2.  When node 3 is
met below node 2, it still lies on the stack as a child of node 1. -/
def sharedChild : NodeTree (Fin 5) where
  nodes := List.finRange 5
  document := 0
  nodeType := ![.document, .element, .element, .element, .element]
  parent _ := none
  children := ![[1], [2, 3], [3, 1], [4, 3], []]
  shadowRoot _ := none
  host _ := none
  isSlot _ := false
  assignedNodes _ := []
  assignedSlot _ := none
  localName _ := "div"
  space _ := none
  attributeValue _ _ := none

theorem flatDescendants_eq_search_sharedChild :
    sharedChild.ListsNodes ∧ sharedChild.flatDescendants 1 = [2, 3, 4, 1] ∧
      TransGen sharedChild.Parents 1 1 := by
  have hlists : sharedChild.ListsNodes :=
    ⟨fun _ child _ => List.mem_finRange child, fun _ node _ => List.mem_finRange node⟩
  obtain ⟨htraverses, -, -, hmem⟩ := flatDescendants_eq_search sharedChild hlists 1
  have hone : sharedChild.flatChildren 1 = [2, 3] := by decide +kernel
  have htwo : sharedChild.flatChildren 2 = [3, 1] := by decide +kernel
  have hthree : sharedChild.flatChildren 3 = [4, 3] := by decide +kernel
  have hfour : sharedChild.flatChildren 4 = [] := by decide +kernel
  have hrun : sharedChild.Traverses [] (sharedChild.flatChildren 1) [2, 3, 4, 1] := by
    rw [hone]
    apply Collects.first (by decide)
    rw [htwo]
    apply Collects.first (by decide)
    rw [hthree]
    apply Collects.first (by decide)
    rw [hfour]
    apply Collects.again (by decide)
    apply Collects.first (by decide)
    rw [hone]
    repeat apply Collects.again (by decide)
    exact Collects.finished
  have hlist := ((htraverses _).mp hrun).symm
  refine ⟨hlists, hlist, (hmem 1).mp ?_⟩
  rw [hlist]
  decide

end FlatTree.NodeTree
