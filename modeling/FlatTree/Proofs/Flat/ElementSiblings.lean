import FlatTree.Flat.Siblings
import FlatTree.Proofs.Flat.Content
import FlatTree.Proofs.Walk
import Mathlib.Data.List.Basic
import Mathlib.Data.List.Induction

/-!
# Element siblings

Among the flat children of a node the elements stand in one list without repetition, and each of them
splits this list into what stands before it and what stands behind it.  The previous element is the last one
before it, and its rank counts both parts.  Where all elements of the list have the node as their flat
parent, steps to the previous element meet exactly the elements before.
-/

namespace FlatTree.NodeTree

open Relation

variable {ν : Type} [DecidableEq ν] (tree : NodeTree ν)

/-- The elements among the flat children of a node. -/
def flatElements (parent : ν) : List ν :=
  (tree.flatChildren parent).filter tree.isElement

variable {tree}

theorem nodup_flatElements (parent : ν) : (tree.flatElements parent).Nodup :=
  (nodup_flatChildren parent).filter _

/-! ## Splitting a list at an element -/

section Split

variable {siblings front back : List ν} {node : ν} (hnodup : siblings.Nodup)
  (hsplit : siblings.filter tree.isElement = front ++ node :: back)

include hnodup hsplit

/-- The elements before an element are those among everything that stands before it. -/
theorem filter_takeWhile_ne : (siblings.takeWhile (· ≠ node)).filter tree.isElement = front := by
  have hmem : node ∈ siblings.filter tree.isElement := hsplit ▸ List.mem_append_cons_self
  obtain ⟨hnode, helement⟩ := List.mem_filter.mp hmem
  obtain ⟨before, after, rfl, hbefore⟩ := List.eq_append_cons_of_mem hnode
  have hafter : node ∉ after := by
    rw [List.nodup_middle, List.nodup_cons] at hnodup
    exact fun hagain => hnodup.1 (List.mem_append_right before hagain)
  have hothers : ∀ other ∈ before, decide (other ≠ node) = true :=
    fun other hother => decide_eq_true (ne_of_mem_of_not_mem hother hbefore)
  have hfront : before.filter tree.isElement = front := by
    rw [List.filter_append, List.filter_cons_of_pos helement, List.append_cons_inj_of_notMem
      (fun hagain => hbefore (List.mem_of_mem_filter hagain))
      (fun hagain => hafter (List.mem_of_mem_filter hagain))] at hsplit
    exact hsplit.1
  rw [List.takeWhile_append_of_pos hothers, List.takeWhile_cons_of_neg (by simp), List.append_nil, hfront]

theorem previousElementAmong_eq : tree.previousElementAmong siblings node = front.getLast? := by
  have hmem : node ∈ siblings.filter tree.isElement := hsplit ▸ List.mem_append_cons_self
  rw [previousElementAmong, if_pos (List.mem_of_mem_filter hmem)]
  calc
    (siblings.takeWhile (· ≠ node)).reverse.find? tree.isElement
      = ((siblings.takeWhile (· ≠ node)).reverse.filter tree.isElement).head? := List.head?_filter.symm
    _ = ((siblings.takeWhile (· ≠ node)).filter tree.isElement).getLast? := by
        rw [List.filter_reverse, List.head?_reverse]
    _ = front.getLast? := by rw [filter_takeWhile_ne hnodup hsplit]

theorem rankAmong_eq :
    tree.rankAmong siblings node = some ⟨front.length + 1, front.length + 1 + back.length⟩ := by
  have hfront : node ∉ front := by
    have helements := hnodup.filter tree.isElement
    rw [hsplit, List.nodup_middle, List.nodup_cons] at helements
    exact fun hagain => helements.1 (List.mem_append_left back hagain)
  rw [rankAmong, hsplit, if_pos List.mem_append_cons_self, List.idxOf_append_of_notMem hfront,
    List.idxOf_cons_self, List.length_append, List.length_cons]
  congr 2
  omega

end Split

/-! ## Elements of one flat parent -/

section Siblings

variable {parent node : ν} {front back : List ν}

theorem flatPreviousElement_eq (hparent : tree.flatParent node = some parent)
    (hsplit : tree.flatElements parent = front ++ node :: back) :
    tree.flatPreviousElement node = front.getLast? := by
  rw [flatPreviousElement, hparent, Option.bind_some]
  exact previousElementAmong_eq (nodup_flatChildren parent) hsplit

theorem flatRank_eq (hparent : tree.flatParent node = some parent)
    (hsplit : tree.flatElements parent = front ++ node :: back) :
    tree.flatRank node = some ⟨front.length + 1, front.length + 1 + back.length⟩ := by
  rw [flatRank, hparent, Option.bind_some]
  exact rankAmong_eq (nodup_flatChildren parent) hsplit

theorem flatRank_of_getElem? {index : Nat} (hparent : tree.flatParent node = some parent)
    (hplace : (tree.flatElements parent)[index]? = some node) :
    tree.flatRank node = some ⟨index + 1, (tree.flatElements parent).length⟩ := by
  obtain ⟨hlt, rfl⟩ := List.getElem?_eq_some_iff.mp hplace
  have hsplit : tree.flatElements parent = (tree.flatElements parent).take index ++
      (tree.flatElements parent)[index] :: (tree.flatElements parent).drop (index + 1) := by
    rw [← List.drop_eq_getElem_cons hlt, List.take_append_drop]
  rw [flatRank_eq hparent hsplit, List.length_take, List.length_drop]
  congr 2
  · omega
  · omega

/-- An element with a rank is one of the elements of its flat parent. -/
theorem exists_split_of_flatRank {rank : Selector.Rank} (hrank : tree.flatRank node = some rank) :
    ∃ parent front back, tree.flatParent node = some parent ∧
      tree.flatElements parent = front ++ node :: back ∧
      rank = ⟨front.length + 1, (tree.flatElements parent).length⟩ := by
  obtain ⟨parent, hparent, hamong⟩ := Option.bind_eq_some_iff.mp hrank
  have hmem : node ∈ tree.flatElements parent := by
    by_contra hmem
    rw [rankAmong] at hamong
    exact Option.some_ne_none rank (hamong.symm.trans (if_neg hmem))
  obtain ⟨front, back, hsplit⟩ := List.append_of_mem hmem
  refine ⟨parent, front, back, hparent, hsplit, ?_⟩
  rw [flatRank_eq hparent hsplit] at hrank
  rw [← Option.some.inj hrank, hsplit, List.length_append, List.length_cons]
  congr 1
  omega

end Siblings

/-! ## Walks over previous elements -/

variable (tree) in
/-- All flat children of a flat parent have it as their flat parent. -/
def SiblingsAgree : Prop :=
  ∀ node parent, tree.flatParent node = some parent →
    ∀ other ∈ tree.flatChildren parent, tree.flatParent other = some parent

namespace SiblingsAgree

variable (hagree : tree.SiblingsAgree)

include hagree

/-- A step to the previous element leads to an element of the same parent. -/
theorem of_flatPreviousElement {node other : ν} (hprevious : tree.flatPreviousElement node = some other) :
    ∃ parent, tree.flatParent other = some parent ∧ other ∈ tree.flatElements parent := by
  obtain ⟨parent, hparent, hamong⟩ := Option.bind_eq_some_iff.mp hprevious
  rw [previousElementAmong] at hamong
  split at hamong
  · have hmem := List.mem_reverse.mp (List.mem_of_find?_eq_some hamong)
    have hother := (List.takeWhile_sublist _).subset hmem
    exact ⟨parent, hagree node parent hparent other hother,
      List.mem_filter.mpr ⟨hother, List.find?_some hamong⟩⟩
  · contradiction

section Split

variable {parent node : ν} {front back : List ν} (hparent : tree.flatParent node = some parent)
  (hsplit : tree.flatElements parent = front ++ node :: back)

include hparent hsplit

/-- Going back from an element lists the elements that stand before it, nearest first. -/
theorem walk_eq (steps : Nat) :
    walk tree.flatPreviousElement steps node = front.reverse.take steps := by
  -- The nearest element before the node has the same parent, and one element less before it.
  induction front using List.reverseRecOn generalizing node back steps with
  | nil =>
      rw [walk_of_none (flatPreviousElement_eq hparent hsplit), List.reverse_nil, List.take_nil]
  | append_singleton front nearest ih =>
      have hprevious : tree.flatPreviousElement node = some nearest := by
        rw [flatPreviousElement_eq hparent hsplit, List.getLast?_concat]
      have hmem : nearest ∈ tree.flatElements parent := by simp [hsplit]
      have hnearest := hagree node parent hparent nearest (List.mem_of_mem_filter hmem)
      rw [List.append_assoc, List.singleton_append] at hsplit
      cases steps with
      | zero => rfl
      | succ steps =>
          rw [walk_of_some hprevious, ih hnearest hsplit, List.reverse_concat, List.take_succ_cons]

theorem iterate_flatPreviousElement (index : Nat) :
    (fun current => current.bind tree.flatPreviousElement)^[index + 1] (some node) =
      front.reverse[index]? := by
  rw [iterate_bind_eq_getElem?_walk index.lt_succ_self, hagree.walk_eq hparent hsplit,
    List.getElem?_take_of_lt index.lt_succ_self]

/-- There are as many steps back as elements before the element. -/
theorem endsWithin_length : EndsWithin tree.flatPreviousElement front.length node := by
  rw [← iterate_bind_eq_none_iff, hagree.iterate_flatPreviousElement hparent hsplit]
  exact List.getElem?_eq_none (Nat.le_of_eq List.length_reverse)

/-- Going back from an element over previous elements meets exactly those that stand before it. -/
theorem transGen_iff (other : ν) :
    TransGen (Leads tree.flatPreviousElement) node other ↔ other ∈ front := by
  rw [← mem_walk_iff (hagree.endsWithin_length hparent hsplit), hagree.walk_eq hparent hsplit,
    List.take_of_length_le (Nat.le_of_eq List.length_reverse), List.mem_reverse]

end Split

/-- Repeated steps to the previous element end. -/
theorem endsWithin_flatPreviousElement
    (hnodes : ∀ node parent, tree.flatParent node = some parent → node ∈ tree.nodes) (node : ν) :
    EndsWithin tree.flatPreviousElement tree.nodes.length node := by
  have hreached {other : ν} (hpath : TransGen (Leads tree.flatPreviousElement) node other) :
      ∃ parent, tree.flatParent other = some parent ∧ other ∈ tree.flatElements parent := by
    obtain ⟨before, -, hlast⟩ := TransGen.tail'_iff.mp hpath
    exact hagree.of_flatPreviousElement hlast
  apply endsWithin_of_acyclic
  · intro other hpath
    obtain ⟨parent, hparent, -⟩ := hreached hpath
    exact hnodes other parent hparent
  · intro other hpath hcycle
    obtain ⟨parent, hparent, hmem⟩ := hreached hpath
    obtain ⟨front, back, hsplit, hfront⟩ := List.eq_append_cons_of_mem hmem
    exact hfront ((hagree.transGen_iff hparent hsplit other).mp hcycle)

/-- The elements in front of an element are those that a general sibling combinator looks at. -/
theorem related_general (hnodes : ∀ node parent, tree.flatParent node = some parent → node ∈ tree.nodes)
    {parent node : ν} {front back : List ν} (hparent : tree.flatParent node = some parent)
    (hsplit : tree.flatElements parent = front ++ node :: back) :
    tree.flatView.related .general node = front.reverse := by
  have hends := hagree.endsWithin_flatPreviousElement hnodes node
  rw [← iterate_bind_eq_none_iff, hagree.iterate_flatPreviousElement hparent hsplit,
    List.getElem?_eq_none_iff] at hends
  calc
    tree.flatView.related .general node = walk tree.flatView.previous tree.nodes.length node := rfl
    _ = walk tree.flatPreviousElement tree.nodes.length node := by rw [flatView_previous]
    _ = front.reverse.take tree.nodes.length := hagree.walk_eq hparent hsplit _
    _ = front.reverse := List.take_of_length_le hends

end SiblingsAgree

end FlatTree.NodeTree
