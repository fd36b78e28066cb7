import FlatTree.Proofs.Flat.ElementSiblings
import FlatTree.Proofs.Selector.Meaning
import Mathlib.Data.Fin.VecNotation

/-!
# Positions of elements

Structural pseudo-classes ask for the place of an element among the elements that its flat parent shows.
An element that no flat parent shows is counted alone.  From one split of these elements come the rank, the
previous element and all that the pseudo-classes say, so the way over positions and the way over previous
elements agree in every tree, whatever it answers.
-/

namespace FlatTree.NodeTree

open Selector

variable {ν : Type} [DecidableEq ν]

/-- The elements among which an element is counted: those of its flat parent, if it is one of them, and
otherwise the element alone. -/
def countedElements (tree : NodeTree ν) (element : ν) : List ν :=
  match tree.flatParent element with
  | none => [element]
  | some parent =>
    if element ∈ tree.flatElements parent then tree.flatElements parent else [element]

/-- The elements before and behind an element are those of which the flat view knows. -/
structure CountedBetween (tree : NodeTree ν) (element : ν) (front back : List ν) : Prop where
  countedElements : tree.countedElements element = front ++ element :: back
  not_mem_front : element ∉ front
  rankOf : tree.flatView.rankOf element = ⟨front.length + 1, front.length + 1 + back.length⟩
  previous : tree.flatPreviousElement element = front.getLast?

variable {tree : NodeTree ν} {element : ν}

theorem countedBetween_alone (halone : tree.countedElements element = [element])
    (hrank : tree.flatRank element = none) (hprevious : tree.flatPreviousElement element = none) :
    tree.CountedBetween element [] [] where
  countedElements := halone
  not_mem_front := List.not_mem_nil
  rankOf := by
    rw [ElementView.rankOf, flatView_rank, hrank]
    rfl
  previous := hprevious

theorem exists_countedBetween (helement : tree.isElement element = true) :
    ∃ front back, tree.CountedBetween element front back := by
  cases hparent : tree.flatParent element with
  | none =>
      refine ⟨[], [], countedBetween_alone ?_ ?_ ?_⟩
      · rw [countedElements, hparent]
      · rw [flatRank, hparent, Option.bind_none]
      · rw [flatPreviousElement, hparent, Option.bind_none]
  | some parent =>
      by_cases hmem : element ∈ tree.flatElements parent
      · obtain ⟨front, back, hsplit, hfront⟩ := List.eq_append_cons_of_mem hmem
        refine ⟨front, back, ?_, hfront, ?_, flatPreviousElement_eq hparent hsplit⟩
        · rw [countedElements, hparent, ← hsplit]
          exact if_pos hmem
        · rw [ElementView.rankOf, flatView_rank, flatRank_eq hparent hsplit]
          rfl
      · have hchild : element ∉ tree.flatChildren parent :=
          fun hchild => hmem (List.mem_filter.mpr ⟨hchild, helement⟩)
        refine ⟨[], [], countedBetween_alone ?_ ?_ ?_⟩
        · rw [countedElements, hparent]
          exact if_neg hmem
        · rw [flatRank, hparent, Option.bind_some, rankAmong]
          exact if_neg hmem
        · rw [flatPreviousElement, hparent, Option.bind_some, previousElementAmong, if_neg hchild]

theorem mem_countedElements (tree : NodeTree ν) (element : ν) :
    element ∈ tree.countedElements element := by
  rw [countedElements]
  split
  · exact List.mem_singleton_self element
  · split
    · assumption
    · exact List.mem_singleton_self element

/-- The rank in the flat view is the position among the counted elements and their number. -/
theorem rankOf_eq (helement : tree.isElement element = true) :
    tree.flatView.rankOf element =
      ⟨(tree.countedElements element).idxOf element + 1, (tree.countedElements element).length⟩ := by
  obtain ⟨front, back, hcounted⟩ := exists_countedBetween helement
  rw [hcounted.rankOf, hcounted.countedElements, List.idxOf_append_of_notMem hcounted.not_mem_front,
    List.idxOf_cons_self, List.length_append, List.length_cons]
  congr 1
  omega

theorem flatPreviousElement_eq_none_iff (helement : tree.isElement element = true) :
    tree.flatPreviousElement element = none ↔ (tree.countedElements element).idxOf element = 0 := by
  obtain ⟨front, back, hcounted⟩ := exists_countedBetween helement
  rw [hcounted.previous, hcounted.countedElements,
    List.idxOf_append_of_notMem hcounted.not_mem_front, List.idxOf_cons_self, Nat.add_zero,
    List.getLast?_eq_none_iff, List.length_eq_zero_iff]

/-- There are no more elements to count than flat children. -/
theorem length_countedElements_lt {bound : Nat} (hbound : 1 < bound)
    (hfew : ∀ parent, tree.flatParent element = some parent →
      (tree.flatChildren parent).length < bound) :
    (tree.countedElements element).length < bound := by
  rw [countedElements]
  split
  · exact hbound
  · rename_i parent hparent
    split
    · exact Nat.lt_of_le_of_lt (List.length_filter_le _ _) (hfew parent hparent)
    · exact hbound

/-- With its position counted from one, an element is selected by `:nth-child(an+b)` if its position is a
value of the formula, and by `:nth-last-child(an+b)` if its position from the end is.  To be the first child
is to be at position one, which is to have no previous element; to be the last child is the same from the
end, and to be the only child is both.  The element has fewer siblings than overflow the arithmetic of 64
bits. -/
theorem structural_features_iff (tree : NodeTree ν) {element : ν}
    (helement : tree.isElement element = true)
    (hfew : ∀ parent, tree.flatParent element = some parent →
      (tree.flatChildren parent).length < 2 ^ 62) :
    let position := (tree.countedElements element).idxOf element + 1
    let count := (tree.countedElements element).length
    let selects (feature : Feature) : Prop :=
      tree.flatView.acceptsList element (.ofFeature feature) = true
    (∀ nth : Nth, selects (.nthChild nth) ↔
      ∃ k : Nat, (position : Int) = nth.step.toInt * k + nth.offset.toInt) ∧
    (∀ nth : Nth, selects (.nthLastChild nth) ↔
      ∃ k : Nat, (count : Int) - position + 1 = nth.step.toInt * k + nth.offset.toInt) ∧
    (selects .firstChild ↔ selects (.nthChild ⟨0, 1⟩)) ∧
    (selects .firstChild ↔ tree.flatPreviousElement element = none) ∧
    (selects .lastChild ↔ selects (.nthLastChild ⟨0, 1⟩)) ∧
    (selects .onlyChild ↔ selects .firstChild ∧ selects .lastChild) := by
  intro position count selects
  have hrank : tree.flatView.rankOf element = ⟨position, count⟩ := rankOf_eq helement
  have hle : position ≤ count := List.idxOf_lt_length_of_mem (tree.mem_countedElements element)
  have hsmall : count < 2 ^ 62 := length_countedElements_lt (by decide) hfew
  have hview : tree.flatView.isElement element = true := helement
  have hselects (feature : Feature) :
      selects feature ↔ tree.flatView.hasFeature element feature = true := by
    simp only [selects, ElementView.acceptsList_ofFeature hview]
  have hnth (nth : Nth) : selects (.nthChild nth) ↔
      ∃ k : Nat, (position : Int) = nth.step.toInt * k + nth.offset.toInt := by
    rw [hselects, ElementView.hasFeature, hrank, Nth.selects_iff_names]
    exact nth.names_iff_of_lt (Nat.lt_of_le_of_lt hle (Nat.lt_trans hsmall (by decide)))
  have hnthLast (nth : Nth) : selects (.nthLastChild nth) ↔
      ∃ k : Nat, (count : Int) - position + 1 = nth.step.toInt * k + nth.offset.toInt := by
    have hbehind : ((count - position + 1 : Nat) : Int) = (count : Int) - position + 1 := by omega
    rw [hselects, ElementView.hasFeature, hrank, Nth.selects_iff_names, ← hbehind]
    exact nth.names_iff_of_lt (by dsimp only; omega)
  have hfirst : selects .firstChild ↔ position = 1 := by
    rw [hselects, ElementView.hasFeature, hrank, decide_eq_true_eq]
  have hlast : selects .lastChild ↔ position = count := by
    rw [hselects, ElementView.hasFeature, hrank, decide_eq_true_eq]
  have honly : selects .onlyChild ↔ count = 1 := by
    rw [hselects, ElementView.hasFeature, hrank, decide_eq_true_eq]
  have hstart : 1 ≤ position := Nat.succ_pos _
  refine ⟨hnth, hnthLast, ?_, ?_, ?_, ?_⟩
  · rw [hfirst, hnth]
    simp
  · rw [hfirst, flatPreviousElement_eq_none_iff helement]
    exact Nat.succ_inj
  · rw [hlast, hnthLast]
    simp
    omega
  · rw [honly, hfirst, hlast]
    omega

/-- A host with node 3, slot 4 and node 5 in its shadow tree.  The text 6 and the elements 7 and 8 are
assigned to the slot. -/
def filledSlot : NodeTree (Fin 9) where
  nodes := List.finRange 9
  document := 0
  nodeType := ![.document, .element, .shadowRoot, .element, .element, .element, .text, .element, .element]
  parent := ![none, some 0, none, some 2, some 2, some 2, some 1, some 1, some 1]
  children := ![[1], [6, 7, 8], [3, 4, 5], [], [], [], [], [], []]
  shadowRoot := ![none, some 2, none, none, none, none, none, none, none]
  host := ![none, none, some 1, none, none, none, none, none, none]
  isSlot := ![false, false, false, false, true, false, false, false, false]
  assignedNodes := ![[], [], [], [], [6, 7, 8], [], [], [], []]
  assignedSlot := ![none, none, none, none, none, none, some 4, some 4, some 4]
  localName _ := "div"
  space _ := none
  attributeValue _ _ := none

/-- Node 7 is the first element child of its parent, but the second of four in the flat tree. -/
theorem structural_features_iff_filledSlot :
    filledSlot.isElement 7 = true ∧
      (∀ parent, filledSlot.flatParent 7 = some parent →
        (filledSlot.flatChildren parent).length < 2 ^ 62) ∧
      filledSlot.countedElements 7 = [3, 7, 8, 5] ∧
      filledSlot.flatView.acceptsList 7 (.ofFeature (.nthChild ⟨-2, 4⟩)) = true ∧
      filledSlot.flatView.acceptsList 7 (.ofFeature (.nthLastChild ⟨2, -1⟩)) = true ∧
      ¬ filledSlot.flatView.acceptsList 7 (.ofFeature .firstChild) = true := by
  have helement : filledSlot.isElement 7 = true := rfl
  have hparent : filledSlot.flatParent 7 = some 1 := by decide +kernel
  have hchildren : filledSlot.flatChildren 1 = [3, 6, 7, 8, 5] := by decide +kernel
  have hcounted : filledSlot.countedElements 7 = [3, 7, 8, 5] := by decide +kernel
  have hfew : ∀ parent, filledSlot.flatParent 7 = some parent →
      (filledSlot.flatChildren parent).length < 2 ^ 62 := by
    intro parent hother
    rw [hparent] at hother
    cases hother
    rw [hchildren]
    decide
  obtain ⟨hnth, hnthLast, -, hfirst, -⟩ := structural_features_iff filledSlot helement hfew
  have hprevious : filledSlot.flatPreviousElement 7 = some 3 := by decide +kernel
  rw [hcounted] at hnth hnthLast
  refine ⟨helement, hfew, hcounted, ?_, ?_, ?_⟩
  · exact (hnth ⟨-2, 4⟩).mpr ⟨1, by decide⟩
  · exact (hnthLast ⟨2, -1⟩).mpr ⟨2, by decide⟩
  · intro hselects
    have hnone := hfirst.mp hselects
    rw [hprevious] at hnone
    contradiction

end FlatTree.NodeTree
