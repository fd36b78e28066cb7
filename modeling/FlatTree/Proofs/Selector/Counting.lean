import FlatTree.Selector.Nth
import Mathlib.Algebra.Order.Ring.Int

/-!
# Positions that are named

A position is named by `an+b` if it is `a * k + b` for some `k` that is not negative.  The test divides in
arithmetic of 64 bits.  It has a result exactly if the difference of the position and the offset has 64 bits,
whatever the signs of the two numbers, and with a result it agrees with the equation.  Only the last positions
can have no result, and those that are not within 32 bits of the largest one always have one.
-/

namespace FlatTree.Selector

/-! ## Checked arithmetic -/

theorem subtract?_eq_some_iff {left right difference : Int64} :
    subtract? left right = some difference ↔ difference.toInt = left.toInt - right.toInt := by
  have hleast : Int64.minValue.toInt = -2 ^ 63 := by decide
  have hgreatest : Int64.maxValue.toInt = 2 ^ 63 - 1 := by decide
  rw [subtract?, hleast, hgreatest]
  constructor
  · intro hfound
    split at hfound
    · rename_i hfits
      rw [← Option.some.inj hfound]
      exact Int64.toInt_ofInt_of_le hfits.1 (by omega)
    · contradiction
  · intro hexact
    have hlower := difference.le_toInt
    have hupper := difference.toInt_lt
    rw [← hexact, if_pos ⟨hlower, by omega⟩, Int64.ofInt_toInt]

/-- The difference is refused exactly if it does not have 64 bits. -/
theorem subtract?_eq_none_iff {left right : Int64} :
    subtract? left right = none ↔
      left.toInt - right.toInt < -2 ^ 63 ∨ 2 ^ 63 ≤ left.toInt - right.toInt := by
  have hleast : Int64.minValue.toInt = -2 ^ 63 := by decide
  have hgreatest : Int64.maxValue.toInt = 2 ^ 63 - 1 := by decide
  rw [subtract?, hleast, hgreatest, ite_eq_right_iff]
  simp only [reduceCtorEq, imp_false]
  omega

theorem divides_of_lt {divisor number : Int64} (hdivisor : divisor ≠ 0) (hnumber : -2 ^ 63 < number.toInt) :
    divides divisor number = true := by
  have hne : number ≠ Int64.minValue := by
    rintro rfl
    exact absurd hnumber (by decide)
  simp [divides, hdivisor, hne]

/-- All but the least number are divided as over the integers. -/
theorem toInt_div_of_lt {divisor number : Int64} (hnumber : -2 ^ 63 < number.toInt) :
    (number / divisor).toInt = number.toInt.tdiv divisor.toInt := by
  have hsmaller := Int.natAbs_tdiv_le_natAbs number.toInt divisor.toInt
  have hupper := number.toInt_lt
  rw [Int64.toInt_div]
  exact Int.bmod_eq_of_le (by omega) (by omega)

/-- Division without a remainder finds the factor. -/
theorem tmod_and_tdiv_iff {step difference : Int} (hstep : step ≠ 0) :
    difference.tmod step = 0 ∧ 0 ≤ difference.tdiv step ↔ ∃ k : Nat, difference = step * k := by
  constructor
  · rintro ⟨hmod, hdiv⟩
    obtain ⟨factor, rfl⟩ := Int.dvd_iff_tmod_eq_zero.mpr hmod
    rw [Int.mul_tdiv_cancel_left factor hstep] at hdiv
    obtain ⟨k, rfl⟩ := Int.eq_ofNat_of_zero_le hdiv
    exact ⟨k, rfl⟩
  · rintro ⟨k, rfl⟩
    rw [Int.mul_tdiv_cancel_left _ hstep]
    exact ⟨Int.mul_tmod_right step k, Int.natCast_nonneg k⟩

section Division

variable {divisor number : Int64} (hdivisor : divisor ≠ 0) (hnumber : -2 ^ 63 < number.toInt)

include hdivisor hnumber

theorem remainder?_of_lt : remainder? number divisor = some (number % divisor) := by
  rw [remainder?, divides_of_lt hdivisor hnumber]
  exact if_pos rfl

theorem quotient?_of_lt : quotient? number divisor = some (number / divisor) := by
  rw [quotient?, divides_of_lt hdivisor hnumber]
  exact if_pos rfl

theorem mod_and_div_iff :
    number % divisor = 0 ∧ 0 ≤ number / divisor ↔ ∃ k : Nat, number.toInt = divisor.toInt * k := by
  have hne : divisor.toInt ≠ 0 := by
    rwa [Ne, ← Int64.toInt_zero, Int64.toInt_inj]
  rw [← Int64.toInt_inj, Int64.le_iff_toInt_le, Int64.toInt_zero, Int64.toInt_mod,
    toInt_div_of_lt hnumber]
  exact tmod_and_tdiv_iff hne

end Division

namespace Nth

/-- The position is `step * k + offset` for a `k` that is not negative, and its difference to the offset has
64 bits. -/
def Names (nth : Nth) (position : Nat) : Prop :=
  position < positionBound ∧ (position : Int) - nth.offset.toInt < 2 ^ 63 ∧
    ∃ k : Nat, (position : Int) = nth.step.toInt * k + nth.offset.toInt

theorem selects?_of_overflow (nth : Nth) {position : Nat} (hbound : position < positionBound)
    (hlarge : 2 ^ 63 ≤ (position : Int) - nth.offset.toInt) : nth.selects? position = none := by
  have hnone : subtract? (.ofNat position) nth.offset.toInt64 = none := by
    rw [subtract?_eq_none_iff, Int64.toInt_ofNat_of_lt hbound, Int32.toInt_toInt64]
    exact Or.inr hlarge
  rw [selects?, if_pos hbound, hnone]
  rfl

/-- With a difference of 64 bits the test has a result.  The difference is never the least number of 64 bits,
the one that cannot be divided by minus one. -/
theorem selects?_of_fits (nth : Nth) {position : Nat} (hbound : position < positionBound)
    (hfits : (position : Int) - nth.offset.toInt < 2 ^ 63) :
    ∃ selected, nth.selects? position = some selected ∧
      (selected = true ↔ ∃ k : Nat, (position : Int) = nth.step.toInt * k + nth.offset.toInt) := by
  have hoffset := nth.offset.toInt_lt
  have hposition := Int64.toInt_ofNat_of_lt hbound
  cases hsubtract : subtract? (.ofNat position) nth.offset.toInt64 with
  | none =>
      rw [subtract?_eq_none_iff, hposition, Int32.toInt_toInt64] at hsubtract
      omega
  | some difference =>
      have hdifference := subtract?_eq_some_iff.mp hsubtract
      rw [hposition, Int32.toInt_toInt64] at hdifference
      have hequation (k : Nat) : (position : Int) = nth.step.toInt * k + nth.offset.toInt ↔
          difference.toInt = nth.step.toInt * k := by omega
      simp only [hequation]
      rw [selects?, if_pos hbound, hsubtract]
      by_cases hstep : nth.step = 0
      · refine ⟨decide (difference = 0), by simp [hstep], ?_⟩
        rw [decide_eq_true_eq, ← Int64.toInt_inj, hstep]
        simp
      · have hne : nth.step.toInt64 ≠ 0 := by
          rwa [Ne, ← Int64.toInt_inj, Int32.toInt_toInt64, Int64.toInt_zero, ← Int32.toInt_zero,
            Int32.toInt_inj]
        have hlower : -2 ^ 63 < difference.toInt := by omega
        have hiff := mod_and_div_iff hne hlower
        rw [Int32.toInt_toInt64] at hiff
        by_cases hrest : difference % nth.step.toInt64 = 0
        · refine ⟨decide (0 ≤ difference / nth.step.toInt64), ?_, ?_⟩
          · simp [hstep, hrest, remainder?_of_lt hne hlower, quotient?_of_lt hne hlower]
          · rw [decide_eq_true_eq, ← hiff, and_iff_right hrest]
        · refine ⟨false, ?_, ?_⟩
          · simp [hstep, hrest, remainder?_of_lt hne hlower]
          · exact iff_of_false Bool.false_ne_true fun hsolved => hrest (hiff.mpr hsolved).1

/-- The test of a position of 64 bits is stopped by the difference, and by nothing else. -/
theorem selects?_eq_none_iff (nth : Nth) {position : Nat} (hbound : position < positionBound) :
    nth.selects? position = none ↔ 2 ^ 63 ≤ (position : Int) - nth.offset.toInt := by
  constructor
  · intro hnone
    by_contra hfits
    obtain ⟨selected, hselected, -⟩ := nth.selects?_of_fits hbound (Int.not_le.mp hfits)
    exact Option.some_ne_none selected (hselected.symm.trans hnone)
  · exact nth.selects?_of_overflow hbound

theorem selects_iff_names (nth : Nth) (position : Nat) :
    nth.selects position = true ↔ nth.Names position := by
  rw [selects, decide_eq_true_eq, Names]
  by_cases hbound : position < positionBound
  · rw [and_iff_right hbound]
    by_cases hfits : (position : Int) - nth.offset.toInt < 2 ^ 63
    · obtain ⟨selected, hselected, hiff⟩ := nth.selects?_of_fits hbound hfits
      rw [and_iff_right hfits, hselected, Option.some.injEq, hiff]
    · rw [nth.selects?_of_overflow hbound (Int.not_lt.mp hfits)]
      exact iff_of_false (by decide) fun hnames => hfits hnames.1
  · rw [selects?, if_neg hbound]
    exact iff_of_false (by decide) fun hnames => hbound hnames.1

/-- Below the last few positions the arithmetic does not overflow. -/
theorem names_iff_of_lt (nth : Nth) {position : Nat} (hlt : position < 2 ^ 63 - 2 ^ 31) :
    nth.Names position ↔ ∃ k : Nat, (position : Int) = nth.step.toInt * k + nth.offset.toInt := by
  have hlower := nth.offset.le_toInt
  have hbound : position < positionBound := by
    rw [positionBound]
    omega
  rw [Names, and_iff_right hbound, and_iff_right (by omega)]

/-- The arithmetic of the test stays within 64 bits, and divides by nothing but numbers other than zero,
exactly if the difference of the position and the offset does.  Its result is then whether the equation has a
solution that is not negative.  Positions of more than 63 bits are tested without arithmetic, and never
selected. -/
theorem selects_exactly (nth : Nth) (position : Nat) :
    (position < positionBound →
      (nth.selects? position = none ↔ 2 ^ 63 ≤ (position : Int) - nth.offset.toInt) ∧
        ∀ selected, nth.selects? position = some selected → (selected = true ↔
          ∃ k : Nat, (position : Int) = nth.step.toInt * k + nth.offset.toInt)) ∧
      (positionBound ≤ position → nth.selects? position = some false) := by
  constructor
  · intro hbound
    refine ⟨nth.selects?_eq_none_iff hbound, fun selected hselected => ?_⟩
    have hfits := (nth.selects?_eq_none_iff hbound).not.mp
      (hselected ▸ Option.some_ne_none selected)
    obtain ⟨other, hother, hiff⟩ := nth.selects?_of_fits hbound (Int.not_le.mp hfits)
    rwa [Option.some.inj (hselected.symm.trans hother)]
  · intro hlarge
    rw [selects?, if_neg (Nat.not_lt.mpr hlarge)]

/-- With the least offset and the step minus one, the last position that has a result is not selected; with
the step one it is. -/
theorem selects_exactly_leastOffset :
    let position := 2 ^ 63 - 2 ^ 31 - 1
    (⟨-1, Int32.minValue⟩ : Nth).selects? position = some false ∧
      (⟨1, Int32.minValue⟩ : Nth).selects? position = some true ∧
      (⟨1, Int32.minValue⟩ : Nth).selects? (position + 1) = none := by
  intro position
  obtain ⟨hdown, -⟩ := selects_exactly ⟨-1, Int32.minValue⟩ position
  obtain ⟨hup, -⟩ := selects_exactly ⟨1, Int32.minValue⟩ position
  obtain ⟨hbehind, -⟩ := selects_exactly ⟨1, Int32.minValue⟩ (position + 1)
  refine ⟨?_, ?_, ((hbehind (by decide)).1).mpr (by decide)⟩
  · obtain ⟨selected, hselected⟩ :=
      Option.ne_none_iff_exists'.mp (((hdown (by decide)).1).not.mpr (by decide))
    have hiff := (hdown (by decide)).2 selected hselected
    cases selected with
    | false => exact hselected
    | true =>
        obtain ⟨k, hk⟩ := hiff.mp rfl
        have hstep : (-1 : Int32).toInt = -1 := by decide
        have hoffset : Int32.minValue.toInt = -2 ^ 31 := by decide
        simp only [position, hstep, hoffset] at hk
        omega
  · obtain ⟨selected, hselected⟩ :=
      Option.ne_none_iff_exists'.mp (((hup (by decide)).1).not.mpr (by decide))
    rw [hselected, ((hup (by decide)).2 selected hselected).mpr ⟨2 ^ 63 - 1, by decide⟩]

/-- The last position of 64 bits is `n-1` for the largest factor of all, but the difference of the two
overflows, and the test ends without a result. -/
theorem lastPosition_overflows :
    2 ^ 63 - 1 < positionBound ∧ (⟨1, -1⟩ : Nth).selects? (2 ^ 63 - 1) = none ∧
      ((2 ^ 63 - 1 : Nat) : Int) = (1 : Int32).toInt * (2 ^ 63 : Nat) + (-1 : Int32).toInt := by
  refine ⟨by decide, by decide, by decide⟩

end Nth

end FlatTree.Selector
