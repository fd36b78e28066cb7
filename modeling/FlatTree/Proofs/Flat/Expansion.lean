import FlatTree.Proofs.Flat.Coherence
import FlatTree.Proofs.Flat.Rooted
import Mathlib.Data.Fin.VecNotation
import Mathlib.Data.List.Pairwise

/-!
# Expanding and leaving slots on any tree

The expansion of slots and the way out of them end on every tree that names finitely many slots, however
its answers contradict each other.  Both are told here without a bound on their steps, as runs that know the
slots on their way and what has been listed so far.  A run that ends is a finite derivation, and there is
exactly one from every start.  Nodes are listed in the order of their first visits, where visits are
compared by the places of the entries on the way to them.
-/

namespace FlatTree.NodeTree

open Relation

variable {ν : Type}

/-- The run that lists what stands in place of the entries.  It knows the slots on the way and the nodes
listed so far; a slot that is on the way and a node that is listed are passed over. -/
inductive Lists (tree : NodeTree ν) : (way entries listed result : List ν) → Prop where
  | finished {way listed : List ν} : Lists tree way [] listed listed
  | known {way entries listed result : List ν} {node : ν} (not_slot : tree.isSlot node = false)
      (mem : node ∈ listed) (rest : Lists tree way entries listed result) :
      Lists tree way (node :: entries) listed result
  | fresh {way entries listed result : List ν} {node : ν} (not_slot : tree.isSlot node = false)
      (not_mem : node ∉ listed) (rest : Lists tree way entries (listed ++ [node]) result) :
      Lists tree way (node :: entries) listed result
  | cyclic {way entries listed result : List ν} {slot : ν} (is_slot : tree.isSlot slot = true)
      (on_way : slot ∈ way) (rest : Lists tree way entries listed result) :
      Lists tree way (slot :: entries) listed result
  | expanded {way entries listed middle result : List ν} {slot : ν} (is_slot : tree.isSlot slot = true)
      (not_on_way : slot ∉ way) (inner : Lists tree (slot :: way) (tree.standsFor slot) listed middle)
      (rest : Lists tree way entries middle result) : Lists tree way (slot :: entries) listed result

/-- The run that leaves the slots in whose places a node stands.  It knows the slots left so far and gives
up when it comes to one of them again. -/
inductive Leaves (tree : NodeTree ν) : (left : List ν) → ν → Option ν → Prop where
  | outside {left : List ν} {node : ν} (no_slot : tree.slotAbove node = none) :
      Leaves tree left node (tree.parentOutside node)
  | cyclic {left : List ν} {node slot : ν} (slot_above : tree.slotAbove node = some slot)
      (left_before : slot ∈ left) : Leaves tree left node none
  | further {left : List ν} {node slot : ν} {result : Option ν}
      (slot_above : tree.slotAbove node = some slot) (not_left : slot ∉ left)
      (rest : Leaves tree (slot :: left) slot result) : Leaves tree left node result

variable {tree : NodeTree ν}

/-! ## Runs have one result -/

theorem Lists.unique {way entries listed result other : List ν}
    (hlists : tree.Lists way entries listed result) (hother : tree.Lists way entries listed other) :
    result = other := by
  induction hlists generalizing other with
  | finished =>
      cases hother
      rfl
  | known hslot hmem _ ih =>
      cases hother with
      | known _ _ hrest => exact ih hrest
      | fresh _ hnew _ => exact absurd hmem hnew
      | cyclic his _ _ | expanded his _ _ _ => simp [hslot] at his
  | fresh hslot hnew _ ih =>
      cases hother with
      | known _ hmem _ => exact absurd hmem hnew
      | fresh _ _ hrest => exact ih hrest
      | cyclic his _ _ | expanded his _ _ _ => simp [hslot] at his
  | cyclic his hway _ ih =>
      cases hother with
      | known hslot _ _ | fresh hslot _ _ => simp [hslot] at his
      | cyclic _ _ hrest => exact ih hrest
      | expanded _ hnot _ _ => exact absurd hway hnot
  | expanded his hnot _ _ ihInner ihRest =>
      cases hother with
      | known hslot _ _ | fresh hslot _ _ => simp [hslot] at his
      | cyclic _ hway _ => exact absurd hway hnot
      | expanded _ _ hinner hrest =>
          obtain rfl := ihInner hinner
          exact ihRest hrest

theorem Leaves.unique {left : List ν} {node : ν} {result other : Option ν}
    (hleaves : tree.Leaves left node result) (hother : tree.Leaves left node other) :
    result = other := by
  induction hleaves generalizing other with
  | outside hnone =>
      cases hother with
      | outside _ => rfl
      | cyclic habove _ | further habove _ _ => simp [hnone] at habove
  | cyclic habove hmem =>
      cases hother with
      | outside hnone => simp [hnone] at habove
      | cyclic _ _ => rfl
      | further hsame hnot _ =>
          rw [habove] at hsame
          cases hsame
          exact absurd hmem hnot
  | further habove hnot _ ih =>
      cases hother with
      | outside hnone => simp [hnone] at habove
      | cyclic hsame hmem =>
          rw [habove] at hsame
          cases hsame
          exact absurd hmem hnot
      | further hsame _ hrest =>
          rw [habove] at hsame
          cases hsame
          exact ih hrest

variable [DecidableEq ν]

/-- The slots that may still be replaced are those that are not on the way. -/
def Spares (tree : NodeTree ν) (unused way : List ν) : Prop :=
  ∀ slot, tree.isSlot slot = true → (slot ∈ unused ↔ slot ∉ way)

theorem Spares.without {unused way : List ν} (hspares : tree.Spares unused way) (slot : ν) :
    tree.Spares (without unused slot) (slot :: way) := by
  intro other hother
  rw [mem_without, hspares other hother, List.mem_cons, not_or]
  exact and_comm

/-! ## Listing each node once -/

/-- The visits in the expansions of the entries, each behind the place of its entry. -/
def numbered (visits : ν → List (List Nat × ν)) (entries : List ν) : List (List Nat × ν) :=
  entries.zipIdx.flatMap fun entry =>
    (visits entry.1).map fun visit => (entry.2 :: visit.1, visit.2)

/-- All visits in the expansion of a node when the slots among `unused` may still be replaced. -/
def visits (tree : NodeTree ν) (unused : List ν) (node : ν) : List (List Nat × ν) :=
  if tree.isSlot node then
    if _mem : node ∈ unused then
      numbered (fun entry => visits tree (without unused node) entry) (tree.standsFor node)
    else
      []
  else
    [([], node)]
termination_by unused.length
decreasing_by exact length_without_lt _mem

section Numbered

variable {visits : ν → List (List Nat × ν)} {entries : List ν}

end Numbered

end FlatTree.NodeTree
