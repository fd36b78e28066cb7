import FlatTree.Proofs.Walk
import Mathlib.Data.List.Pairwise

/-!
# Tree order

An ordered forest is given twice, by a step up from each node and by the list of the nodes right below it.
In tree order a node comes before all that lies below it; of two nodes of which none lies below the other
the one comes first whose way up arrives at an earlier child of a node that is above both.  A listing that
puts each node before what it lists below it is in this order, and the first node in it that passes a test
is the first one in the tree.
-/

namespace FlatTree

open Relation

variable {ν : Type}

/-- A node and what lies below it on so many levels, each node before what lies below it. -/
def preorder (below : ν → List ν) : (levels : Nat) → ν → List ν
  | 0, _ => []
  | levels + 1, node => node :: (below node).flatMap (preorder below levels)

/-- Steps up and lists of what is right below describe the same forest. -/
structure OrderedForest (up : ν → Option ν) (below : ν → List ν) : Prop where
  mem_below_iff : ∀ upper node, node ∈ below upper ↔ up node = some upper
  nodup_below : ∀ upper, (below upper).Nodup
  acyclic : ∀ node, ¬ TransGen (Leads up) node node

/-- Tree order: a node is above the other, or the ways up from both come by children of one node, its
child being the earlier one. -/
def TreePrecedes (up : ν → Option ν) (below : ν → List ν) (first second : ν) : Prop :=
  TransGen (Leads up) second first ∨
    ∃ common left right, [left, right].Sublist (below common) ∧
      ReflTransGen (Leads up) first left ∧ ReflTransGen (Leads up) second right

/-- The first node in tree order below a given one that has a property. -/
structure FirstBelow (up : ν → Option ν) (below : ν → List ν) (upper : ν) (property : ν → Prop)
    (first : ν) : Prop where
  path : TransGen (Leads up) first upper
  holds : property first
  precedes : ∀ other, TransGen (Leads up) other upper → property other → other ≠ first →
    TreePrecedes up below first other

/-! ## Listings -/

section Listing

variable {below : ν → List ν}

/-- Where a listing is complete, more levels add nothing. -/
theorem preorder_of_spansWithin {levels more : Nat} {node : ν} (hspans : SpansWithin below levels node)
    (hle : levels ≤ more) : preorder below more node = preorder below levels node := by
  induction levels generalizing more node with
  | zero => contradiction
  | succ levels ih =>
      cases more with
      | zero => contradiction
      | succ more =>
          rw [preorder, preorder]
          congr 1
          apply List.flatMap_congr
          intro next hnext
          exact ih (hspans next hnext) (Nat.le_of_succ_le_succ hle)

/-- A listing depends only on what is right below the nodes that it comes to. -/
theorem preorder_congr {other : ν → List ν} {levels : Nat} {node : ν}
    (hsame : ∀ last, ReflTransGen (fun upper next => next ∈ below upper) node last →
      other last = below last) : preorder other levels node = preorder below levels node := by
  induction levels generalizing node with
  | zero => rfl
  | succ levels ih =>
      rw [preorder, preorder, hsame node .refl]
      congr 1
      apply List.flatMap_congr
      intro next hnext
      exact ih fun last hpath => hsame last (.head hnext hpath)

end Listing

/-! ## Lists in an order -/

/-- In a list that is ordered by an asymmetric relation the first member that passes comes before all
others that pass. -/
theorem find?_eq_some_iff_of_pairwise {r : ν → ν → Prop} {nodes : List ν}
    (hpairwise : nodes.Pairwise r) (hasymm : ∀ left right, r left right → ¬ r right left)
    (passes : ν → Bool) (first : ν) :
    nodes.find? passes = some first ↔
      first ∈ nodes ∧ passes first = true ∧
        ∀ other ∈ nodes, passes other = true → other ≠ first → r first other := by
  have hleast {node : ν} (hfound : nodes.find? passes = some node) :
      ∀ other ∈ nodes, passes other = true → other ≠ node → r node other := by
    obtain ⟨-, front, back, rfl, hfront⟩ := List.find?_eq_some_iff_append.mp hfound
    intro other hother hpasses hne
    rcases List.mem_append.mp hother with hbefore | hafter
    · have hfails := hfront other hbefore
      rw [hpasses] at hfails
      contradiction
    · rcases List.mem_cons.mp hafter with hsame | hbehind
      · exact absurd hsame hne
      · exact (List.pairwise_cons.mp (List.pairwise_append.mp hpairwise).2.1).1 other hbehind
  constructor
  · intro hfound
    exact ⟨List.mem_of_find?_eq_some hfound, List.find?_some hfound, hleast hfound⟩
  · rintro ⟨hmem, hpasses, hfirst⟩
    obtain ⟨node, hfound⟩ := Option.isSome_iff_exists.mp
      (List.find?_isSome.mpr ⟨first, hmem, hpasses⟩)
    have hsame : node = first := by
      by_contra hne
      have hforth := hfirst node (List.mem_of_find?_eq_some hfound) (List.find?_some hfound) hne
      exact hasymm first node hforth (hleast hfound first hmem hpasses (Ne.symm hne))
    rw [hfound, hsame]

/-- A set of nodes has at most one listing in an order. -/
theorem eq_of_pairwise_of_mem_iff {r : ν → ν → Prop} (hasymm : ∀ left right, r left right → ¬ r right left)
    {nodes others : List ν} (hnodes : nodes.Pairwise r) (hothers : others.Pairwise r)
    (hsame : ∀ node, node ∈ nodes ↔ node ∈ others) : nodes = others := by
  have hne {left right : ν} (hrelated : r left right) : left ≠ right := by
    rintro rfl
    exact hasymm left left hrelated hrelated
  have hperm := (List.perm_ext_iff_of_nodup (hnodes.imp hne) (hothers.imp hne)).mpr hsame
  refine List.Perm.eq_of_pairwise ?_ hnodes hothers hperm
  intro left right _ _ hforth hback
  exact absurd hback (hasymm left right hforth)

/-- Two members of a list without repetition stand in one order only. -/
theorem not_sublist_swap {nodes : List ν} (hnodup : nodes.Nodup) {left right : ν}
    (hsublist : [left, right].Sublist nodes) : ¬ [right, left].Sublist nodes := by
  intro hswapped
  induction nodes with
  | nil => cases hsublist
  | cons node nodes ih =>
      obtain ⟨hnode, hnodes⟩ := List.nodup_cons.mp hnodup
      cases hsublist with
      | cons _ hbehind =>
          cases hswapped with
          | cons _ hother => exact ih hnodes hbehind hother
          | cons_cons _ hleft => exact hnode (hbehind.subset (by simp))
      | cons_cons _ hright =>
          cases hswapped with
          | cons _ hother => exact hnode (hother.subset (by simp))
          | cons_cons _ hleft => exact hnode (hright.subset (by simp))

/-! ## What lies below a node -/

section Below

variable {up : ν → Option ν} {below : ν → List ν}
  (hbelow : ∀ upper node, node ∈ below upper ↔ up node = some upper)

include hbelow

theorem below_path_iff {upper node : ν} :
    ReflTransGen (fun above next => next ∈ below above) upper node ↔
      ReflTransGen (Leads up) node upper := by
  rw [← reflTransGen_swap]
  simp only [hbelow]
  rfl

theorem path_of_mem_preorder {levels : Nat} {node other : ν}
    (hother : other ∈ preorder below levels node) : ReflTransGen (Leads up) other node := by
  induction levels generalizing node with
  | zero => contradiction
  | succ levels ih =>
      rw [preorder, List.mem_cons, List.mem_flatMap] at hother
      rcases hother with rfl | ⟨child, hchild, hother⟩
      · exact .refl
      · exact (ih hother).tail ((hbelow node child).mp hchild)

end Below

namespace OrderedForest

variable {up : ν → Option ν} {below : ν → List ν} (hforest : OrderedForest up below)

include hforest

/-- What lies below a node lies on at most as many levels as there are nodes to meet. -/
theorem spansWithin [DecidableEq ν] (nodes : List ν) (node : ν)
    (hmem : ∀ other, ReflTransGen (Leads up) other node → other ∈ nodes) :
    SpansWithin below nodes.length node := by
  apply spansWithin_of_acyclic
  · exact fun other hpath => hmem other ((below_path_iff hforest.mem_below_iff).mp hpath)
  · intro other hcycle
    apply hforest.acyclic other
    rw [← transGen_swap]
    refine TransGen.mono ?_ _ _ hcycle
    exact fun upper next hstep => (hforest.mem_below_iff upper next).mp hstep

/-- With levels enough a listing is complete. -/
theorem mem_preorder_iff {levels : Nat} {node other : ν} (hspans : SpansWithin below levels node) :
    other ∈ preorder below levels node ↔ ReflTransGen (Leads up) other node := by
  refine ⟨path_of_mem_preorder hforest.mem_below_iff, fun hpath => ?_⟩
  induction levels generalizing node with
  | zero => contradiction
  | succ levels ih =>
      rw [preorder, List.mem_cons, List.mem_flatMap]
      rcases hpath.cases_tail with hsame | ⟨child, hpath, hstep⟩
      · exact Or.inl hsame.symm
      · have hchild := (hforest.mem_below_iff node child).mpr hstep
        exact Or.inr ⟨child, hchild, ih (hspans child hchild) hpath⟩

/-! ## The order -/

theorem pairwise_preorder (levels : Nat) (node : ν) :
    (preorder below levels node).Pairwise (TreePrecedes up below) := by
  induction levels generalizing node with
  | zero => exact List.Pairwise.nil
  | succ levels ih =>
      rw [preorder, List.pairwise_cons, List.pairwise_flatMap]
      refine ⟨?_, fun child _ => ih child, ?_⟩
      · intro other hother
        obtain ⟨child, hchild, hother⟩ := List.mem_flatMap.mp hother
        exact Or.inl (.tail' (path_of_mem_preorder hforest.mem_below_iff hother)
          ((hforest.mem_below_iff node child).mp hchild))
      · rw [List.pairwise_iff_forall_sublist]
        intro left right hsublist first hfirst second hsecond
        exact Or.inr ⟨node, left, right, hsublist, path_of_mem_preorder hforest.mem_below_iff hfirst,
          path_of_mem_preorder hforest.mem_below_iff hsecond⟩

theorem branches_of_sublist {left right common : ν} (hsublist : [left, right].Sublist (below common)) :
    Leads up left common ∧ Leads up right common ∧ left ≠ right := by
  refine ⟨?_, ?_, ?_⟩
  · exact (hforest.mem_below_iff common left).mp (hsublist.subset (by simp))
  · exact (hforest.mem_below_iff common right).mp (hsublist.subset (by simp))
  · exact List.pairwise_iff_forall_sublist.mp (hforest.nodup_below common) hsublist

/-- Two nodes do not both come before each other. -/
theorem precedes_asymm (first second : ν) (hprecedes : TreePrecedes up below first second) :
    ¬ TreePrecedes up below second first := by
  -- A node below one branch is not below another branch from the same node.
  have hapart {first second common left right : ν} (hsublist : [left, right].Sublist (below common))
      (hleftPath : ReflTransGen (Leads up) first left)
      (hrightPath : ReflTransGen (Leads up) second right) :
      ¬ TransGen (Leads up) first second ∧ ¬ TransGen (Leads up) second first := by
    obtain ⟨hleft, hright, hne⟩ := hforest.branches_of_sublist hsublist
    constructor
    · intro hpath
      exact hne (eq_of_leads_same hforest.acyclic hleft hright hleftPath
        (hpath.to_reflTransGen.trans hrightPath))
    · intro hpath
      exact hne (eq_of_leads_same hforest.acyclic hleft hright
        (hpath.to_reflTransGen.trans hleftPath) hrightPath)
  rintro (hback | ⟨other, otherLeft, otherRight, hother, hotherLeft, hotherRight⟩)
  · rcases hprecedes with hpath | ⟨common, left, right, hsublist, hleftPath, hrightPath⟩
    · exact hforest.acyclic first (hback.trans hpath)
    · exact (hapart hsublist hleftPath hrightPath).1 hback
  · rcases hprecedes with hpath | ⟨common, left, right, hsublist, hleftPath, hrightPath⟩
    · exact (hapart hother hotherLeft hotherRight).1 hpath
    · obtain ⟨hleft, hright, hne⟩ := hforest.branches_of_sublist hsublist
      obtain ⟨hleft', hright', hne'⟩ := hforest.branches_of_sublist hother
      -- Both forks are at the lowest node above the two, so they have the same branches.
      obtain rfl : common = other := by
        apply eq_of_paths hforest.acyclic
        · exact path_of_branches hforest.acyclic hleft hright hne hleftPath hrightPath
            (hotherRight.tail hright') (hotherLeft.tail hleft')
        · exact path_of_branches hforest.acyclic hleft' hright' hne' hotherLeft hotherRight
            (hrightPath.tail hright) (hleftPath.tail hleft)
      obtain rfl : left = otherRight :=
        eq_of_leads_same hforest.acyclic hleft hright' hleftPath hotherRight
      obtain rfl : right = otherLeft :=
        eq_of_leads_same hforest.acyclic hright hleft' hrightPath hotherLeft
      exact not_sublist_swap (hforest.nodup_below common) hsublist hother

theorem nodup_preorder (levels : Nat) (node : ν) : (preorder below levels node).Nodup := by
  refine (hforest.pairwise_preorder levels node).imp ?_
  rintro first second hprecedes rfl
  exact hforest.precedes_asymm first first hprecedes hprecedes

/-- A complete listing finds the first node in tree order that passes, where the node that the listing
starts from does not pass. -/
theorem find?_preorder_eq_some_iff {levels : Nat} {upper : ν} (hspans : SpansWithin below levels upper)
    {passes : ν → Bool} (hupper : passes upper = false) (first : ν) :
    (preorder below levels upper).find? passes = some first ↔
      FirstBelow up below upper (passes · = true) first := by
  have hbelow {node : ν} (hpasses : passes node = true) :
      node ∈ preorder below levels upper ↔ TransGen (Leads up) node upper := by
    rw [hforest.mem_preorder_iff hspans, reflTransGen_iff_eq_or_transGen]
    refine or_iff_right ?_
    rintro rfl
    rw [hupper] at hpasses
    contradiction
  rw [find?_eq_some_iff_of_pairwise (hforest.pairwise_preorder levels upper) hforest.precedes_asymm]
  constructor
  · rintro ⟨hmem, hpasses, hleast⟩
    exact ⟨(hbelow hpasses).mp hmem, hpasses,
      fun other hpath hother => hleast other ((hbelow hother).mpr hpath) hother⟩
  · rintro ⟨hpath, hpasses, hleast⟩
    exact ⟨(hbelow hpasses).mpr hpath, hpasses,
      fun other hmem hother => hleast other ((hbelow hother).mp hmem) hother⟩

end OrderedForest

end FlatTree
