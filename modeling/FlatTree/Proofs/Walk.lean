import FlatTree.Walk
import Mathlib.Data.List.Basic
import Mathlib.Data.List.Nodup
import Mathlib.Logic.Function.Iterate
import Mathlib.Logic.Relation

/-!
# Paths and walks that end

A path need not come back to the node that it starts from, so a search that never visits a node twice
misses nothing.  A walk lists what repeated steps lead to, up to a bound.  Where the steps end within the
bound the walk is complete: it holds exactly the nodes that one or more steps lead to.  Steps that never
come back end within as many steps as there are nodes to meet, and those that come back meet no other nodes
after so many.  Steps to several nodes are bounded in the same way where they span finitely many levels.
-/

namespace FlatTree

open Relation

variable {ν : Type}

/-! ## Paths without return -/

section Paths

variable {r : ν → ν → Prop} {first last : ν}

/-- A path leaves its first node for the last time. -/
theorem exists_departure (hpath : ReflTransGen r first last) :
    first = last ∨ ∃ next, r first next ∧
      ReflTransGen (fun left right => left ≠ first ∧ r left right) next last := by
  induction hpath with
  | refl => exact Or.inl rfl
  | @tail node last _ hstep ih =>
      by_cases hnode : node = first
      · subst hnode
        exact Or.inr ⟨last, hstep, .refl⟩
      · rcases ih with hfirst | ⟨next, hnext, hpath⟩
        · exact absurd hfirst.symm hnode
        · exact Or.inr ⟨next, hnext, hpath.tail ⟨hnode, hstep⟩⟩

/-- A path need not return to its first node. -/
theorem exists_without_return (hpath : ReflTransGen r first last) :
    ReflTransGen (fun left right => right ≠ first ∧ r left right) first last := by
  induction hpath with
  | refl => exact .refl
  | @tail node last _ hstep ih =>
      by_cases hlast : last = first
      · rw [hlast]
      · exact ih.tail ⟨hlast, hstep⟩

/-- A path either takes no step of a kind, or takes one on its way. -/
theorem avoids_or_takes (kind : ν → ν → Prop) (hpath : ReflTransGen r first last) :
    ReflTransGen (fun left right => ¬ kind left right ∧ r left right) first last ∨
      ∃ left right, ReflTransGen r first left ∧ (kind left right ∧ r left right) ∧
        ReflTransGen r right last := by
  induction hpath with
  | refl => exact Or.inl .refl
  | @tail node last hfront hstep ih =>
      by_cases hkind : kind node last
      · exact Or.inr ⟨node, last, hfront, ⟨hkind, hstep⟩, .refl⟩
      · rcases ih with havoids | ⟨left, right, hleft, htaken, hright⟩
        · exact Or.inl (havoids.tail ⟨hkind, hstep⟩)
        · exact Or.inr ⟨left, right, hleft, htaken, hright.tail hstep⟩

end Paths

/-! ## Steps to at most one node -/

variable {step : ν → Option ν}

/-- One step leads from the first node to the second. -/
def Leads (step : ν → Option ν) (node next : ν) : Prop :=
  step node = some next

theorem leads_rightUnique (step : ν → Option ν) : Relator.RightUnique (Leads step) := by
  intro node left right hleft hright
  exact Option.some.inj (hleft.symm.trans hright)

/-- A node from which no step leads on is not passed by any path. -/
theorem eq_of_reflTransGen_of_none {node last : ν} (hnone : step node = none)
    (hpath : ReflTransGen (Leads step) node last) : last = node := by
  rcases hpath.cases_head with rfl | ⟨next, hnext, -⟩
  · rfl
  · rw [Leads, hnone] at hnext
    contradiction

/-- Where repeated steps come to an end, no node is met twice. -/
theorem not_transGen_of_reflTransGen_none {node last : ν} (hnone : step last = none)
    (hpath : ReflTransGen (Leads step) node last) : ¬ TransGen (Leads step) node node := by
  -- The path goes backwards: whatever leads to an end is not on a cycle, since its only step leaves it.
  induction hpath using ReflTransGen.head_induction_on with
  | refl =>
      intro hcycle
      obtain ⟨next, hnext, -⟩ := TransGen.head'_iff.mp hcycle
      rw [Leads, hnone] at hnext
      contradiction
  | @head node next hnext _ ih =>
      intro hcycle
      obtain ⟨other, hother, hback⟩ := TransGen.head'_iff.mp hcycle
      obtain rfl : next = other := leads_rightUnique step hnext hother
      exact ih (TransGen.tail' hback hnext)

/-- Repeated steps from a node end after at most so many of them. -/
def EndsWithin (step : ν → Option ν) : (steps : Nat) → ν → Prop
  | 0, node => step node = none
  | steps + 1, node => ∀ next, step node = some next → EndsWithin step steps next

theorem EndsWithin.mono {steps more : Nat} {node : ν} (hends : EndsWithin step steps node)
    (hle : steps ≤ more) : EndsWithin step more node := by
  induction more generalizing steps node with
  | zero =>
      obtain rfl : steps = 0 := Nat.le_zero.mp hle
      exact hends
  | succ more ih =>
      intro next hnext
      cases steps with
      | zero =>
          rw [EndsWithin, hnext] at hends
          contradiction
      | succ steps => exact ih (hends next hnext) (Nat.le_of_succ_le_succ hle)

/-- Steps that never come back to a node end before they have met more than all nodes. -/
theorem endsWithin_of_acyclic [DecidableEq ν] (nodes : List ν) (node : ν)
    (hmem : ∀ other, TransGen (Leads step) node other → other ∈ nodes)
    (hacyclic : ∀ other, TransGen (Leads step) node other → ¬ TransGen (Leads step) other other) :
    EndsWithin step nodes.length node := by
  induction hlength : nodes.length generalizing nodes node with
  | zero =>
      have hnil : nodes = [] := List.eq_nil_of_length_eq_zero hlength
      cases hnext : step node with
      | none => exact hnext
      | some next =>
          have := hmem next (.single hnext)
          simp [hnil] at this
  | succ length ih =>
      intro next hnext
      have hfirst : TransGen (Leads step) node next := .single hnext
      apply ih (nodes.erase next) next
      · intro other hother
        have hne : other ≠ next := by
          rintro rfl
          exact hacyclic other hfirst hother
        exact (List.mem_erase_of_ne hne).mpr (hmem other (hfirst.trans hother))
      · intro other hother
        exact hacyclic other (hfirst.trans hother)
      · rw [List.length_erase_of_mem (hmem next hfirst), hlength]
        rfl

theorem walk_of_none {node : ν} (hnone : step node = none) (steps : Nat) :
    walk step steps node = [] := by
  cases steps with
  | zero => rfl
  | succ steps => simp only [walk, hnone]

theorem walk_of_some {node next : ν} (hnext : step node = some next) (steps : Nat) :
    walk step (steps + 1) node = next :: walk step steps next := by
  simp only [walk, hnext]

theorem transGen_of_mem_walk {steps : Nat} {node other : ν} (hmem : other ∈ walk step steps node) :
    TransGen (Leads step) node other := by
  induction steps generalizing node with
  | zero => simp [walk] at hmem
  | succ steps ih =>
      rw [walk] at hmem
      cases hnext : step node with
      | none => simp [hnext] at hmem
      | some next =>
          simp only [hnext, List.mem_cons] at hmem
          rcases hmem with rfl | hmem
          · exact .single hnext
          · exact .head hnext (ih hmem)

/-- A walk that ends within its bound lists exactly what one or more steps lead to. -/
theorem mem_walk_iff {steps : Nat} {node other : ν} (hends : EndsWithin step steps node) :
    other ∈ walk step steps node ↔ TransGen (Leads step) node other := by
  refine ⟨transGen_of_mem_walk, fun hreach => ?_⟩
  induction steps generalizing node with
  | zero =>
      obtain ⟨next, hnext, -⟩ := TransGen.head'_iff.mp hreach
      rw [EndsWithin, hnext] at hends
      contradiction
  | succ steps ih =>
      obtain ⟨next, hnext, hreach⟩ := TransGen.head'_iff.mp hreach
      rw [walk_of_some hnext]
      rcases reflTransGen_iff_eq_or_transGen.mp hreach with rfl | hreach
      · exact List.mem_cons_self
      · exact List.mem_cons_of_mem next (ih (hends next hnext) hreach)

/-- Steps that come to an end do so within the number of nodes to meet. -/
theorem endsWithin_of_reflTransGen_none [DecidableEq ν] (nodes : List ν) {node last : ν}
    (hmem : ∀ other, TransGen (Leads step) node other → other ∈ nodes)
    (hpath : ReflTransGen (Leads step) node last) (hnone : step last = none) :
    EndsWithin step nodes.length node := by
  apply endsWithin_of_acyclic nodes node hmem
  intro other hother
  rcases ReflTransGen.total_of_right_unique (leads_rightUnique step) hpath hother.to_reflTransGen
    with hbeyond | hbefore
  · rw [eq_of_reflTransGen_of_none hnone hbeyond]
    exact not_transGen_of_reflTransGen_none hnone .refl
  · exact not_transGen_of_reflTransGen_none hnone hbefore

/-- The last node of a walk that ends is the one that no step leads on from. -/
theorem getLast?_walk {steps : Nat} {node last : ν} (hends : EndsWithin step steps node)
    (hpath : ReflTransGen (Leads step) node last) (hnone : step last = none) :
    (walk step steps node).getLast?.getD node = last := by
  induction steps generalizing node with
  | zero => exact (eq_of_reflTransGen_of_none hends hpath).symm
  | succ steps ih =>
      cases hnext : step node with
      | none =>
          rw [walk_of_none hnext]
          exact (eq_of_reflTransGen_of_none hnext hpath).symm
      | some next =>
          rcases hpath.cases_head with rfl | ⟨first, hfirst, hrest⟩
          · rw [hnone] at hnext
            contradiction
          · obtain rfl : next = first := leads_rightUnique step hnext hfirst
            rw [walk_of_some hnext, List.getLast?_cons, Option.getD_some]
            exact ih (hends next hnext) hrest

/-- Steps that end within a bound are those that are used up when they have been taken once more. -/
theorem iterate_bind_eq_none_iff {steps : Nat} {node : ν} :
    (fun current => current.bind step)^[steps + 1] (some node) = none ↔ EndsWithin step steps node := by
  induction steps generalizing node with
  | zero => rfl
  | succ steps ih =>
      rw [Function.iterate_succ_apply, Option.bind_some, EndsWithin]
      cases hnext : step node with
      | none => exact iff_of_true (Function.iterate_fixed rfl (steps + 1)) nofun
      | some next => simp only [ih, Option.some.injEq, forall_eq']

/-- Each step of a walk is where so many steps lead to. -/
theorem iterate_bind_eq_getElem?_walk {index steps : Nat} (hindex : index < steps) (node : ν) :
    (fun current => current.bind step)^[index + 1] (some node) = (walk step steps node)[index]? := by
  induction index generalizing steps node with
  | zero =>
      obtain ⟨steps, rfl⟩ := Nat.exists_eq_succ_of_ne_zero (Nat.ne_of_gt hindex)
      rw [Function.iterate_one, Option.bind_some]
      cases hnext : step node with
      | none => rw [walk_of_none hnext, List.getElem?_nil]
      | some next => rw [walk_of_some hnext, List.getElem?_cons_zero]
  | succ index ih =>
      obtain ⟨steps, rfl⟩ := Nat.exists_eq_succ_of_ne_zero (Nat.ne_of_gt (Nat.zero_lt_of_lt hindex))
      rw [Function.iterate_succ_apply, Option.bind_some]
      cases hnext : step node with
      | none => rw [walk_of_none hnext, List.getElem?_nil, Function.iterate_fixed rfl]
      | some next =>
          rw [walk_of_some hnext, List.getElem?_cons_succ, ih (Nat.lt_of_succ_lt_succ hindex)]

theorem EndsWithin.exists_last {steps : Nat} {node : ν} (hends : EndsWithin step steps node) :
    ∃ last, ReflTransGen (Leads step) node last ∧ step last = none := by
  induction steps generalizing node with
  | zero => exact ⟨node, .refl, hends⟩
  | succ steps ih =>
      cases hnext : step node with
      | none => exact ⟨node, .refl, hnext⟩
      | some next =>
          obtain ⟨last, hpath, hlast⟩ := ih (hends next hnext)
          exact ⟨last, .head hnext hpath, hlast⟩

/-- A node from which steps can be used up does not lead back to itself. -/
theorem not_transGen_of_iterate_bind_eq_none {steps : Nat} {node : ν}
    (hnone : (fun current => current.bind step)^[steps] (some node) = none) :
    ¬ TransGen (Leads step) node node := by
  cases steps with
  | zero => contradiction
  | succ steps =>
      obtain ⟨last, hpath, hlast⟩ := (iterate_bind_eq_none_iff.mp hnone).exists_last
      exact not_transGen_of_reflTransGen_none hlast hpath

/-- Walks that end are mapped as their steps are, whatever their bounds. -/
theorem walk_map {κ : Type} {other : κ → Option κ} {image : ν → κ} (kept : ν → Prop)
    (hstep : ∀ node, kept node → other (image node) = (step node).map image)
    (hkept : ∀ node next, kept node → step node = some next → kept next) {steps more : Nat}
    {node : ν} (hnode : kept node) (hends : EndsWithin step steps node)
    (hother : EndsWithin other more (image node)) :
    walk other more (image node) = (walk step steps node).map image := by
  induction steps generalizing more node with
  | zero =>
      have hnone : step node = none := hends
      have himage := hstep node hnode
      rw [hnone, Option.map_none] at himage
      rw [walk_of_none himage, walk_of_none hnone, List.map_nil]
  | succ steps ih =>
      have himage := hstep node hnode
      cases hnext : step node with
      | none =>
          rw [hnext, Option.map_none] at himage
          rw [walk_of_none himage, walk_of_none hnext, List.map_nil]
      | some next =>
          rw [hnext, Option.map_some] at himage
          cases more with
          | zero =>
              rw [EndsWithin, himage] at hother
              contradiction
          | succ more =>
              have hrest := ih (hkept node next hnode hnext) (hends next hnext) (hother _ himage)
              rw [walk_of_some himage, walk_of_some hnext, hrest, List.map_cons]

/-- A walk depends only on the steps from the nodes that it comes to. -/
theorem walk_congr {other : ν → Option ν} (kept : ν → Prop)
    (hsame : ∀ node, kept node → other node = step node)
    (hkept : ∀ node next, kept node → step node = some next → kept next) (steps : Nat) {node : ν}
    (hnode : kept node) : walk other steps node = walk step steps node := by
  induction steps generalizing node with
  | zero => rfl
  | succ steps ih =>
      rw [walk, walk, hsame node hnode]
      cases hnext : step node with
      | none => rfl
      | some next => exact congrArg (next :: ·) (ih (hkept node next hnode hnext))

theorem walk_isPrefix {steps more : Nat} (hle : steps ≤ more) (node : ν) :
    walk step steps node <+: walk step more node := by
  induction steps generalizing more node with
  | zero => exact List.nil_prefix
  | succ steps ih =>
      cases more with
      | zero => contradiction
      | succ more =>
          cases hnext : step node with
          | none =>
              rw [walk_of_none hnext]
              exact List.nil_prefix
          | some next =>
              rw [walk_of_some hnext, walk_of_some hnext, List.cons_prefix_cons]
              exact ⟨rfl, ih (Nat.le_of_succ_le_succ hle) next⟩

section Bounded

variable [DecidableEq ν]

/-- A node need not be met twice on the way to another one, so there is no need of more steps than there
are nodes to meet. -/
theorem mem_walk_of_transGen (nodes : List ν) {node last : ν}
    (hpath : TransGen (fun left right => right ∈ nodes ∧ Leads step left right) node last) :
    last ∈ walk step nodes.length node := by
  induction hlength : nodes.length generalizing nodes node with
  | zero =>
      obtain ⟨next, ⟨hmem, -⟩, -⟩ := TransGen.head'_iff.mp hpath
      rw [List.eq_nil_of_length_eq_zero hlength] at hmem
      contradiction
  | succ length ih =>
      obtain ⟨next, ⟨hmem, hnext⟩, hrest⟩ := TransGen.head'_iff.mp hpath
      rw [walk_of_some hnext]
      rcases reflTransGen_iff_eq_or_transGen.mp (exists_without_return hrest) with rfl | hrest
      · exact List.mem_cons_self
      · apply List.mem_cons_of_mem
        apply ih (nodes.erase next)
        · refine TransGen.mono ?_ _ _ hrest
          rintro left right ⟨hne, hright, hstep⟩
          exact ⟨(List.mem_erase_of_ne hne).mpr hright, hstep⟩
        · rw [List.length_erase_of_mem hmem, hlength]
          rfl

variable {nodes : List ν} {steps more : Nat} {node : ν}
  (hmem : ∀ last, TransGen (Leads step) node last → last ∈ nodes) (hle : nodes.length ≤ steps)

include hmem hle

/-- With as many steps as there are nodes to meet, a walk holds all that one or more steps lead to, whether
it ends or not. -/
theorem mem_walk_iff_of_mem {last : ν} :
    last ∈ walk step steps node ↔ TransGen (Leads step) node last := by
  refine ⟨transGen_of_mem_walk, fun hpath => (walk_isPrefix hle node).subset ?_⟩
  apply mem_walk_of_transGen
  induction hpath with
  | single hstep => exact .single ⟨hmem _ (.single hstep), hstep⟩
  | tail hfront hstep ih => exact ih.tail ⟨hmem _ (hfront.tail hstep), hstep⟩

/-- A search along a walk finds nothing else when the walk has still more steps. -/
theorem find?_cons_walk_of_le (passes : ν → Bool) (hmore : steps ≤ more) :
    (node :: walk step more node).find? passes = (node :: walk step steps node).find? passes := by
  obtain ⟨back, hback⟩ : walk step steps node <+: walk step more node := walk_isPrefix hmore node
  rw [← hback, ← List.cons_append, List.find?_append]
  cases hfound : (node :: walk step steps node).find? passes with
  | some found => rfl
  | none =>
      rw [Option.none_or, List.find?_eq_none]
      intro last hlast
      have hwalk : last ∈ walk step steps node := by
        rw [mem_walk_iff_of_mem hmem hle, ← mem_walk_iff_of_mem hmem (Nat.le_trans hle hmore), ← hback]
        exact List.mem_append_right _ hlast
      exact List.find?_eq_none.mp hfound last (List.mem_cons_of_mem node hwalk)

end Bounded

/-- The run of a search that tests a node, and goes on with the next one as long as the test fails.  It
has a result only if it comes to an end. -/
inductive SearchEnds (step : ν → Option ν) (passes : ν → Bool) : ν → Option ν → Prop where
  | found {node : ν} (hpasses : passes node = true) : SearchEnds step passes node (some node)
  | exhausted {node : ν} (hfails : passes node = false) (hnone : step node = none) :
      SearchEnds step passes node none
  | further {node next : ν} {result : Option ν} (hfails : passes node = false)
      (hnext : step node = some next) (hrest : SearchEnds step passes next result) :
      SearchEnds step passes node result

/-- Where steps end, every search does, and finds what a bounded walk finds. -/
theorem searchEnds_of_endsWithin (passes : ν → Bool) {steps : Nat} {node : ν}
    (hends : EndsWithin step steps node) :
    SearchEnds step passes node ((node :: walk step steps node).find? passes) := by
  induction steps generalizing node with
  | zero =>
      rw [walk_of_none hends]
      cases hpasses : passes node with
      | true => simpa [hpasses] using SearchEnds.found hpasses
      | false => simpa [hpasses] using SearchEnds.exhausted hpasses hends
  | succ steps ih =>
      cases hpasses : passes node with
      | true => simpa [hpasses] using SearchEnds.found hpasses
      | false =>
          rw [List.find?_cons_of_neg (by simp [hpasses])]
          cases hnext : step node with
          | none =>
              rw [walk_of_none hnext]
              exact .exhausted hpasses hnext
          | some next =>
              rw [walk_of_some hnext]
              exact .further hpasses hnext (ih (hends next hnext))

/-- A search that leaves out the node itself starts with the next one. -/
theorem searchEnds_of_next (passes : ν → Bool) {steps : Nat} {node next : ν}
    (hends : EndsWithin step steps node) (hnext : step node = some next) :
    SearchEnds step passes next ((walk step steps node).find? passes) := by
  cases steps with
  | zero =>
      rw [EndsWithin, hnext] at hends
      contradiction
  | succ steps =>
      rw [walk_of_some hnext]
      exact searchEnds_of_endsWithin passes (hends next hnext)

/-- A search that fails at a node that leads back to itself never ends. -/
theorem not_searchEnds_of_leads_self {passes : ν → Bool} {node : ν} (hback : step node = some node)
    (hfails : passes node = false) (result : Option ν) : ¬ SearchEnds step passes node result := by
  intro hends
  induction hends with
  | found hpasses =>
      rw [hpasses] at hfails
      contradiction
  | exhausted _ hnone =>
      rw [hnone] at hback
      contradiction
  | further _ hnext _ ih =>
      rw [hback] at hnext
      cases hnext
      exact ih hback hfails

theorem SearchEnds.unique {passes : ν → Bool} {node : ν} {result other : Option ν}
    (hends : SearchEnds step passes node result) (hother : SearchEnds step passes node other) :
    result = other := by
  induction hends generalizing other with
  | found hpasses =>
      cases hother with
      | found _ => rfl
      | exhausted hfails _ | further hfails _ _ => simp [hpasses] at hfails
  | exhausted hfails hnone =>
      cases hother with
      | found hpasses => simp [hpasses] at hfails
      | exhausted _ _ => rfl
      | further _ hnext _ => simp [hnone] at hnext
  | further hfails hnext _ ih =>
      cases hother with
      | found hpasses => simp [hpasses] at hfails
      | exhausted _ hnone => simp [hnone] at hnext
      | further _ hsame hrest =>
          rw [hnext] at hsame
          cases hsame
          exact ih hrest

/-- Repeated steps from a node come to one that passes, and to none that does before it. -/
def FirstReached (step : ν → Option ν) (passes : ν → Bool) (node first : ν) : Prop :=
  ∃ steps, (fun current => current.bind step)^[steps] (some node) = some first ∧ passes first = true ∧
    ∀ fewer < steps, ∀ other, (fun current => current.bind step)^[fewer] (some node) = some other →
      passes other = false

theorem firstReached_of_passes {passes : ν → Bool} {node first : ν} (hpasses : passes node = true) :
    FirstReached step passes node first ↔ node = first := by
  constructor
  · rintro ⟨steps, hfirst, -, hfails⟩
    cases steps with
    | zero => exact Option.some.inj hfirst
    | succ steps =>
        have hnode := hfails 0 steps.succ_pos node rfl
        rw [hpasses] at hnode
        contradiction
  · rintro rfl
    exact ⟨0, rfl, hpasses, fun fewer hfewer => absurd hfewer (Nat.not_lt_zero fewer)⟩

theorem firstReached_of_fails {passes : ν → Bool} {node first : ν} (hfails : passes node = false) :
    FirstReached step passes node first ↔
      ∃ next, step node = some next ∧ FirstReached step passes next first := by
  constructor
  · rintro ⟨steps, hfirst, hpasses, hbefore⟩
    cases steps with
    | zero =>
        cases hfirst
        rw [hfails] at hpasses
        contradiction
    | succ steps =>
        rw [Function.iterate_succ_apply, Option.bind_some] at hfirst
        cases hnext : step node with
        | none =>
            rw [hnext, Function.iterate_fixed rfl] at hfirst
            contradiction
        | some next =>
            rw [hnext] at hfirst
            refine ⟨next, rfl, steps, hfirst, hpasses, fun fewer hfewer other hother => ?_⟩
            apply hbefore (fewer + 1) (Nat.succ_lt_succ hfewer) other
            rw [Function.iterate_succ_apply, Option.bind_some, hnext, hother]
  · rintro ⟨next, hnext, steps, hfirst, hpasses, hbefore⟩
    refine ⟨steps + 1, ?_, hpasses, fun fewer hfewer other hother => ?_⟩
    · rw [Function.iterate_succ_apply, Option.bind_some, hnext, hfirst]
    · cases fewer with
      | zero =>
          cases hother
          exact hfails
      | succ fewer =>
          rw [Function.iterate_succ_apply, Option.bind_some, hnext] at hother
          exact hbefore fewer (Nat.lt_of_succ_lt_succ hfewer) other hother

/-- A search that ends finds the first node that passes. -/
theorem SearchEnds.eq_some_iff {passes : ν → Bool} {node : ν} {result : Option ν}
    (hends : SearchEnds step passes node result) (first : ν) :
    result = some first ↔ FirstReached step passes node first := by
  induction hends with
  | found hpasses => rw [firstReached_of_passes hpasses, Option.some.injEq]
  | exhausted hfails hnone => simp [firstReached_of_fails hfails, hnone]
  | further hfails hnext _ ih => simp [firstReached_of_fails hfails, hnext, ih]

/-- A search that ends finds nothing exactly if no node passes to which repeated steps lead. -/
theorem SearchEnds.eq_none_iff {passes : ν → Bool} {node : ν} {result : Option ν}
    (hends : SearchEnds step passes node result) :
    result = none ↔ ∀ last, ReflTransGen (Leads step) node last → passes last = false := by
  induction hends with
  | @found node hpasses =>
      refine iff_of_false (Option.some_ne_none node) fun hfails => ?_
      rw [hfails node .refl] at hpasses
      contradiction
  | @exhausted node hfails hnone =>
      refine iff_of_true rfl fun last hpath => ?_
      rwa [eq_of_reflTransGen_of_none hnone hpath]
  | @further node next result hfails hnext _ ih =>
      rw [ih]
      constructor
      · intro hrest last hpath
        rcases hpath.cases_head with rfl | ⟨other, hother, hpath⟩
        · exact hfails
        · obtain rfl : next = other := leads_rightUnique step hnext hother
          exact hrest last hpath
      · exact fun hall last hpath => hall last (.head hnext hpath)

/-! ## Steps that never come back -/

section Acyclic

variable (hacyclic : ∀ node, ¬ TransGen (Leads step) node node)

include hacyclic

theorem eq_of_paths {first last : ν} (hpath : ReflTransGen (Leads step) first last)
    (hback : ReflTransGen (Leads step) last first) : first = last := by
  rcases reflTransGen_iff_eq_or_transGen.mp hpath with hsame | hpath
  · exact hsame.symm
  · exact absurd (hpath.trans_left hback) (hacyclic first)

/-- Of the nodes from which a step leads to a given node, a path comes by at most one. -/
theorem eq_of_leads_same {node left right last : ν} (hleft : Leads step left last)
    (hright : Leads step right last) (hleftPath : ReflTransGen (Leads step) node left)
    (hrightPath : ReflTransGen (Leads step) node right) : left = right := by
  -- The path comes by one of them first, and could come to the other one only from the last node.
  have hnext {first second : ν} (hfirst : Leads step first last) (hsecond : Leads step second last)
      (hpath : ReflTransGen (Leads step) first second) : first = second := by
    rcases hpath.cases_head with hsame | ⟨next, hstep, hrest⟩
    · exact hsame
    · obtain rfl : next = last := leads_rightUnique step hstep hfirst
      exact absurd (TransGen.tail' hrest hsecond) (hacyclic next)
  rcases ReflTransGen.total_of_right_unique (leads_rightUnique step) hleftPath hrightPath
    with hpath | hpath
  · exact hnext hleft hright hpath
  · exact (hnext hright hleft hpath).symm

/-- Where two paths come by different nodes from which a step leads to the same node, that node is the
lowest one that both paths lead to. -/
theorem path_of_branches {first second common left right other : ν} (hleft : Leads step left common)
    (hright : Leads step right common) (hne : left ≠ right)
    (hleftPath : ReflTransGen (Leads step) first left)
    (hrightPath : ReflTransGen (Leads step) second right)
    (hfirst : ReflTransGen (Leads step) first other)
    (hsecond : ReflTransGen (Leads step) second other) :
    ReflTransGen (Leads step) common other := by
  have hplace {node branch : ν} (hbranch : Leads step branch common)
      (hpath : ReflTransGen (Leads step) node branch)
      (hother : ReflTransGen (Leads step) node other) :
      ReflTransGen (Leads step) other branch ∨ ReflTransGen (Leads step) common other := by
    rcases ReflTransGen.total_of_right_unique (leads_rightUnique step) hother hpath with hbelow | habove
    · exact Or.inl hbelow
    · rcases habove.cases_head with rfl | ⟨next, hstep, hrest⟩
      · exact Or.inl .refl
      · obtain rfl : next = common := leads_rightUnique step hstep hbranch
        exact Or.inr hrest
  rcases hplace hleft hleftPath hfirst with hotherLeft | habove
  · rcases hplace hright hrightPath hsecond with hotherRight | habove
    · exact absurd (eq_of_leads_same hacyclic hleft hright hotherLeft hotherRight) hne
    · exact habove
  · exact habove

end Acyclic

theorem transGen_of_iterate_bind {steps : Nat} {node last : ν}
    (hsteps : (fun current => current.bind step)^[steps + 1] (some node) = some last) :
    TransGen (Leads step) node last := by
  induction steps generalizing last with
  | zero => exact .single hsteps
  | succ steps ih =>
      rw [Function.iterate_succ_apply', Option.bind_eq_some_iff] at hsteps
      obtain ⟨before, hbefore, hlast⟩ := hsteps
      exact .tail (ih hbefore) hlast

/-- Where steps never come back, the number of steps from a node to another one is determined. -/
theorem eq_of_iterate_bind_eq_some (hacyclic : ∀ node, ¬ TransGen (Leads step) node node)
    {steps others : Nat} {node last : ν}
    (hsteps : (fun current => current.bind step)^[steps] (some node) = some last)
    (hothers : (fun current => current.bind step)^[others] (some node) = some last) :
    steps = others := by
  induction steps generalizing others node with
  | zero =>
      cases hsteps
      cases others with
      | zero => rfl
      | succ others => exact absurd (transGen_of_iterate_bind hothers) (hacyclic _)
  | succ steps ih =>
      cases others with
      | zero =>
          cases hothers
          exact absurd (transGen_of_iterate_bind hsteps) (hacyclic _)
      | succ others =>
          rw [Function.iterate_succ_apply, Option.bind_some] at hsteps hothers
          cases hnext : step node with
          | none =>
              rw [hnext, Function.iterate_fixed rfl] at hsteps
              contradiction
          | some next =>
              rw [hnext] at hsteps hothers
              rw [ih hsteps hothers]

theorem nodup_cons_walk (hacyclic : ∀ node, ¬ TransGen (Leads step) node node) (steps : Nat)
    (node : ν) : (node :: walk step steps node).Nodup := by
  induction steps generalizing node with
  | zero => exact List.nodup_singleton node
  | succ steps ih =>
      rw [List.nodup_cons]
      refine ⟨fun hmem => hacyclic node (transGen_of_mem_walk hmem), ?_⟩
      cases hnext : step node with
      | none =>
          rw [walk_of_none hnext]
          exact List.nodup_nil
      | some next =>
          rw [walk_of_some hnext]
          exact ih next

section Redirected

variable {other : ν → Option ν} {child parent : ν} (hchild : other child = some parent)
  (hsame : ∀ node, node ≠ child → other node = step node)

include hchild hsame

/-- A path of steps of which those from one node have been redirected is a path of the old steps, or
comes to that node and goes on from its new target. -/
theorem transGen_redirected {first last : ν} (hpath : TransGen (Leads other) first last) :
    TransGen (Leads step) first last ∨
      ReflTransGen (Leads step) first child ∧ ReflTransGen (Leads step) parent last := by
  induction hpath with
  | @single last hstep =>
      by_cases hfirst : first = child
      · rw [hfirst, Leads, hchild] at hstep
        cases hstep
        exact Or.inr ⟨hfirst ▸ .refl, .refl⟩
      · rw [Leads, hsame first hfirst] at hstep
        exact Or.inl (.single hstep)
  | @tail node last _ hstep ih =>
      by_cases hnode : node = child
      · rw [hnode, Leads, hchild] at hstep
        cases hstep
        rw [hnode] at ih
        rcases ih with hold | ⟨hfirst, -⟩
        · exact Or.inr ⟨hold.to_reflTransGen, .refl⟩
        · exact Or.inr ⟨hfirst, .refl⟩
      · rw [Leads, hsame node hnode] at hstep
        rcases ih with hold | ⟨hfirst, hparent⟩
        · exact Or.inl (hold.tail hstep)
        · exact Or.inr ⟨hfirst, hparent.tail hstep⟩

omit hchild in
/-- A path of the old steps to the redirected node is one of the new steps. -/
theorem reflTransGen_to_redirected {first : ν} (hpath : ReflTransGen (Leads step) first child) :
    ReflTransGen (Leads other) first child := by
  induction hpath using ReflTransGen.head_induction_on with
  | refl => exact .refl
  | @head first next hstep _ ih =>
      by_cases hfirst : first = child
      · rw [hfirst]
      · exact .head ((hsame first hfirst).trans hstep) ih

/-- Redirecting a step closes a cycle exactly if the new target leads back to the node. -/
theorem acyclic_redirected_iff (hacyclic : ∀ node, ¬ TransGen (Leads step) node node) :
    (∀ node, ¬ TransGen (Leads other) node node) ↔ ¬ ReflTransGen (Leads step) parent child := by
  constructor
  · intro hnew hback
    exact hnew child (.head' hchild (reflTransGen_to_redirected hsame hback))
  · intro hclear node hcycle
    rcases transGen_redirected hchild hsame hcycle with hold | ⟨hfirst, hparent⟩
    · exact hacyclic node hold
    · exact hclear (hparent.trans hfirst)

end Redirected

/-! ## Steps to several nodes -/

/-- All that lies below a node lies on at most so many levels, of which the node itself is the first. -/
def SpansWithin (below : ν → List ν) : (levels : Nat) → ν → Prop
  | 0, _ => False
  | levels + 1, node => ∀ next ∈ below node, SpansWithin below levels next

section Spans

variable {below : ν → List ν}

theorem SpansWithin.mono {levels more : Nat} {node : ν} (hspans : SpansWithin below levels node)
    (hle : levels ≤ more) : SpansWithin below more node := by
  induction levels generalizing more node with
  | zero => contradiction
  | succ levels ih =>
      cases more with
      | zero => contradiction
      | succ more =>
          intro next hnext
          exact ih (hspans next hnext) (Nat.le_of_succ_le_succ hle)

theorem SpansWithin.of_path {levels : Nat} {node last : ν} (hspans : SpansWithin below levels node)
    (hpath : ReflTransGen (fun above next => next ∈ below above) node last) :
    SpansWithin below levels last := by
  induction hpath with
  | refl => exact hspans
  | @tail above last _ hstep ih =>
      cases levels with
      | zero => contradiction
      | succ levels => exact (ih last hstep).mono levels.le_succ

/-- What never lies below itself spans at most as many levels as there are nodes to meet. -/
theorem spansWithin_of_acyclic [DecidableEq ν] (nodes : List ν) (node : ν)
    (hmem : ∀ other, ReflTransGen (fun above next => next ∈ below above) node other → other ∈ nodes)
    (hacyclic : ∀ other, ¬ TransGen (fun above next => next ∈ below above) other other) :
    SpansWithin below nodes.length node := by
  induction hlength : nodes.length generalizing nodes node with
  | zero =>
      have hnode := hmem node .refl
      rw [List.eq_nil_of_length_eq_zero hlength] at hnode
      contradiction
  | succ length ih =>
      intro next hnext
      apply ih (nodes.erase node) next
      · intro other hother
        have hne : other ≠ node := by
          rintro rfl
          exact hacyclic other (.head' hnext hother)
        exact (List.mem_erase_of_ne hne).mpr (hmem other (.head hnext hother))
      · rw [List.length_erase_of_mem (hmem node .refl), hlength]
        rfl

end Spans

end FlatTree
