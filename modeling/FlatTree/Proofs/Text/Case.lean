import FlatTree.Text.Ascii
import Mathlib

/-!
# Letter case

The lower-case form of a text has no upper-case letter of ASCII, and a text without one is its own
lower-case form.  Lower-case letters are the form of the texts in which each of them stands in either case.
-/

namespace FlatTree.Text

theorem isUpper_of_mem_asciiLower {c : Char} {text : List Char} (hmem : c ∈ asciiLower text) :
    c.isUpper = false := by
  obtain ⟨letter, -, rfl⟩ := List.mem_map.mp hmem
  exact letter.isUpper_toLower_eq_false

theorem isUpper_of_mem_lowered {c : Char} {text : String} (hmem : c ∈ (lowered text).toList) :
    c.isUpper = false := by
  rw [lowered, String.toList_ofList] at hmem
  exact isUpper_of_mem_asciiLower hmem

theorem asciiLower_of_not_isUpper {text : List Char} (hupper : ∀ c ∈ text, c.isUpper = false) :
    asciiLower text = text := by
  have hsame : ∀ c ∈ text, c.toLower = id c := by
    intro c hc
    exact Char.toLower_eq_of_not_isUpper (Bool.eq_false_iff.mp (hupper c hc))
  rw [asciiLower, List.map_congr_left hsame, List.map_id]

theorem toLower_eq_iff {c letter : Char} (hletter : letter.isLower = true) :
    c.toLower = letter ↔ c = letter ∨ c = letter.toUpper := by
  have hsame : letter.toLower = letter :=
    Char.toLower_eq_of_not_isUpper (Char.not_isUpper_of_isLower hletter)
  constructor
  · rintro rfl
    cases hupper : c.isUpper with
    | true =>
        rw [Char.toUpper_toLower_eq_toUpper]
        exact Or.inr (Char.toUpper_eq_of_not_isLower (Char.not_isLower_of_isUpper hupper)).symm
    | false => exact Or.inl (Char.toLower_eq_of_not_isUpper (Bool.eq_false_iff.mp hupper)).symm
  · rintro (rfl | rfl)
    · exact hsame
    · rw [Char.toLower_toUpper_eq_toLower, hsame]

/-- The letters are written one after the other, each of them in lower or in upper case. -/
def InAnyCase (letters text : List Char) : Prop :=
  List.Forall₂ (fun letter c => c = letter ∨ c = letter.toUpper) letters text

theorem asciiLower_eq_iff_inAnyCase {letters text : List Char}
    (hletters : ∀ letter ∈ letters, letter.isLower = true) :
    asciiLower text = letters ↔ InAnyCase letters text := by
  induction letters generalizing text with
  | nil => simp [asciiLower, InAnyCase]
  | cons letter letters ih =>
      rw [List.forall_mem_cons] at hletters
      cases text with
      | nil => simp [asciiLower, InAnyCase]
      | cons c text =>
          rw [asciiLower, List.map_cons, List.cons.injEq, toLower_eq_iff hletters.1, ← asciiLower,
            ih hletters.2, InAnyCase, InAnyCase, List.forall₂_cons]

theorem lowered_eq_iff_inAnyCase {text word : String}
    (hword : ∀ letter ∈ word.toList, letter.isLower = true) :
    lowered text = word ↔ InAnyCase word.toList text.toList := by
  rw [← asciiLower_eq_iff_inAnyCase hword, lowered, ← String.toList_inj, String.toList_ofList]

end FlatTree.Text
