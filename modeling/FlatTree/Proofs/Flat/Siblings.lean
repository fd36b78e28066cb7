import FlatTree.Flat.Siblings
import FlatTree.Proofs.Flat.Coherence
import Mathlib.Data.List.TakeWhile

/-!
# Neighbours among flat children

The siblings of a node are what stands before and behind it among the children of its flat parent.  So the
next sibling stands right behind the node there, and the previous one right before it.  A step to the next
sibling is undone by a step to the previous one as far as both nodes have the parent that shows them as
their flat parent.
-/

namespace FlatTree.NodeTree

variable {ν : Type} [DecidableEq ν] {tree : NodeTree ν}

/-- Two nodes stand next to each other among the children of a node. -/
def Neighbours (tree : NodeTree ν) (parent left right : ν) : Prop :=
  ∃ front behind, tree.flatChildren parent = front ++ left :: right :: behind

theorem Neighbours.mem {parent left right : ν} (hneighbours : tree.Neighbours parent left right) :
    left ∈ tree.flatChildren parent ∧ right ∈ tree.flatChildren parent := by
  obtain ⟨front, behind, hsplit⟩ := hneighbours
  simp [hsplit]

/-- Flat parents and flat children are inverse, apart from slots and shadow roots, and so are the steps to
the next and to the previous sibling. -/
structure Agrees (tree : NodeTree ν) : Prop where
  flatParent_iff_mem : ∀ node parent, tree.isSlot node = false → tree.isSlot parent = false →
    tree.nodeType parent ≠ .shadowRoot →
      (tree.flatParent node = some parent ↔ node ∈ tree.flatChildren parent)
  flatNext_iff_flatPrevious : ∀ left right,
    tree.flatNext left = some right ↔ tree.flatPrevious right = some left

/-- The siblings of a node are around it among the children of its flat parent. -/
theorem flatSiblings_eq_some_iff {node : ν} {front behind : List ν} :
    tree.flatSiblings node = some (front, behind) ↔ ∃ parent, tree.flatParent node = some parent ∧
      tree.flatChildren parent = front ++ node :: behind := by
  rw [flatSiblings]
  cases hparent : tree.flatParent node with
  | none => simp
  | some parent =>
      simp only [Option.some.injEq, exists_eq_left']
      by_cases hmem : node ∈ tree.flatChildren parent
      · obtain ⟨before, after, hsplit, hbefore⟩ := List.eq_append_cons_of_mem hmem
        have hafter : node ∉ after := by
          have hnodup : (tree.flatChildren parent).Nodup := nodup_flatChildren parent
          rw [hsplit, List.nodup_middle, List.nodup_cons] at hnodup
          exact fun hagain => hnodup.1 (List.mem_append_right before hagain)
        have hothers : ∀ other ∈ before, decide (other ≠ node) = true := by
          intro other hother
          exact decide_eq_true (ne_of_mem_of_not_mem hother hbefore)
        rw [hsplit, List.dropWhile_append_of_pos hothers, List.takeWhile_append_of_pos hothers,
          List.append_cons_inj_of_notMem hbefore hafter]
        simp
      · have hnone : (tree.flatChildren parent).dropWhile (· ≠ node) = [] := by
          rw [List.dropWhile_eq_nil_iff]
          intro other hother
          exact decide_eq_true (ne_of_mem_of_not_mem hother hmem)
        rw [hnone]
        constructor
        · intro hsiblings
          cases hsiblings
        · intro hsplit
          rw [hsplit] at hmem
          exact absurd List.mem_append_cons_self hmem

theorem flatNext_eq_some_iff {left right : ν} :
    tree.flatNext left = some right ↔
      ∃ parent, tree.flatParent left = some parent ∧ tree.Neighbours parent left right := by
  rw [flatNext, Option.bind_eq_some_iff]
  constructor
  · rintro ⟨⟨front, behind⟩, hsiblings, hright⟩
    obtain ⟨parent, hparent, hsplit⟩ := flatSiblings_eq_some_iff.mp hsiblings
    obtain ⟨others, rfl⟩ := List.head?_eq_some_iff.mp hright
    exact ⟨parent, hparent, front, others, hsplit⟩
  · rintro ⟨parent, hparent, front, behind, hsplit⟩
    exact ⟨(front, right :: behind), flatSiblings_eq_some_iff.mpr ⟨parent, hparent, hsplit⟩, rfl⟩

theorem flatPrevious_eq_some_iff {left right : ν} :
    tree.flatPrevious right = some left ↔
      ∃ parent, tree.flatParent right = some parent ∧ tree.Neighbours parent left right := by
  rw [flatPrevious, Option.bind_eq_some_iff]
  constructor
  · rintro ⟨⟨front, behind⟩, hsiblings, hleft⟩
    obtain ⟨parent, hparent, hsplit⟩ := flatSiblings_eq_some_iff.mp hsiblings
    obtain ⟨others, rfl⟩ := List.getLast?_eq_some_iff.mp hleft
    refine ⟨parent, hparent, others, behind, ?_⟩
    rw [hsplit, List.append_cons others left (right :: behind)]
  · rintro ⟨parent, hparent, front, behind, hsplit⟩
    rw [List.append_cons front left (right :: behind)] at hsplit
    exact ⟨(front ++ [left], behind), flatSiblings_eq_some_iff.mpr ⟨parent, hparent, hsplit⟩,
      List.getLast?_concat⟩

namespace Linked

variable (hlinked : tree.Linked) (hslots : ∀ slot, tree.isSlot slot = true → slot ∈ tree.nodes)

include hlinked hslots

/-- All flat children of the flat parent of a node have it as their flat parent, apart from those that are
shown through a host. -/
theorem flatParent_or_shownThroughHost {parent node other : ν}
    (hparent : tree.flatParent node = some parent) (hmem : other ∈ tree.flatChildren parent) :
    tree.flatParent other = some parent ∨ tree.ShownThroughHost parent other := by
  have halone := hlinked.standsAlone_of_flatParent hslots hparent
  have hother := ((mem_flatChildren_iff hslots).mp hmem).1
  exact (hlinked.mem_flatChildren_iff_flatParent hslots hother halone).mp hmem

/-- The next sibling has the node as its previous one, unless it is shown through a host. -/
theorem flatPrevious_of_flatNext {left right : ν} (hnext : tree.flatNext left = some right) :
    tree.flatPrevious right = some left ∨
      ∃ parent, tree.flatParent left = some parent ∧ tree.ShownThroughHost parent right := by
  obtain ⟨parent, hparent, hneighbours⟩ := flatNext_eq_some_iff.mp hnext
  rcases hlinked.flatParent_or_shownThroughHost hslots hparent hneighbours.mem.2 with hright | hhost
  · exact Or.inl (flatPrevious_eq_some_iff.mpr ⟨parent, hright, hneighbours⟩)
  · exact Or.inr ⟨parent, hparent, hhost⟩

/-- The previous sibling has the node as its next one, unless it is shown through a host. -/
theorem flatNext_of_flatPrevious {left right : ν} (hprevious : tree.flatPrevious right = some left) :
    tree.flatNext left = some right ∨
      ∃ parent, tree.flatParent right = some parent ∧ tree.ShownThroughHost parent left := by
  obtain ⟨parent, hparent, hneighbours⟩ := flatPrevious_eq_some_iff.mp hprevious
  rcases hlinked.flatParent_or_shownThroughHost hslots hparent hneighbours.mem.1 with hleft | hhost
  · exact Or.inl (flatNext_eq_some_iff.mpr ⟨parent, hleft, hneighbours⟩)
  · exact Or.inr ⟨parent, hparent, hhost⟩

/-- Everything agrees where no slot with a shadow root shows a child of its own. -/
theorem agrees (hclear : ∀ slot child, ¬ tree.ShowsAsHost slot child) : tree.Agrees := by
  have hdirect : ∀ parent node, ¬ tree.ShownThroughHost parent node := by
    rintro parent node ⟨-, -, slot, child, -, hhost, -⟩
    exact hclear slot child hhost
  constructor
  · intro node parent hnode hparent htype
    have halone := standsAlone_of_not_slot hparent htype
    rw [hlinked.mem_flatChildren_iff_flatParent hslots hnode halone, or_iff_left (hdirect parent node)]
  · intro left right
    constructor
    · intro hnext
      rcases hlinked.flatPrevious_of_flatNext hslots hnext with hprevious | ⟨parent, -, hhost⟩
      · exact hprevious
      · exact absurd hhost (hdirect parent right)
    · intro hprevious
      rcases hlinked.flatNext_of_flatPrevious hslots hprevious with hnext | ⟨parent, -, hhost⟩
      · exact hnext
      · exact absurd hhost (hdirect parent left)

end Linked

end FlatTree.NodeTree
