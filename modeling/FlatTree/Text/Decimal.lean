/-!
# Decimal integers

Writing and reading of integers in decimal digits, with an optional sign before the digits.  Every
written form reads back as the integer that it was made of.
-/

namespace FlatTree.Text

/-- The value of a non-empty run of digits. -/
def readDigits? (text : List Char) : Option Nat :=
  if !text.isEmpty && text.all Char.isDigit then
    some (Nat.ofDigitChars 10 text 0)
  else
    none

/-- The value of a non-empty run of digits behind at most one sign. -/
def readInteger? : List Char → Option Int
  | '+' :: digits => (readDigits? digits).map Int.ofNat
  | '-' :: digits => (readDigits? digits).map fun value => -Int.ofNat value
  | digits => (readDigits? digits).map Int.ofNat

def digits (value : Nat) : List Char :=
  Nat.toDigits 10 value

/-- The shortest form: a sign stands before negative numbers only. -/
def integer (value : Int) : List Char :=
  if value < 0 then '-' :: digits value.natAbs else digits value.natAbs

/-- The form in which a sign always stands before the digits. -/
def signedInteger (value : Int) : List Char :=
  (if value < 0 then '-' else '+') :: digits value.natAbs

theorem isDigit_of_mem_digits {value : Nat} {c : Char} (mem : c ∈ digits value) : c.isDigit :=
  Nat.isDigit_of_mem_toDigits (by decide) (by decide) mem

theorem digits_ne_nil (value : Nat) : digits value ≠ [] :=
  Nat.toDigits_ne_nil

theorem readDigits?_digits (value : Nat) : readDigits? (digits value) = some value := by
  have nonempty : (digits value).isEmpty = false := by simp [digits_ne_nil]
  have all : (digits value).all Char.isDigit := by
    simpa using fun c mem => isDigit_of_mem_digits mem
  rw [readDigits?, nonempty, all]
  exact congrArg some (Nat.ofDigitChars_toDigits (by decide) (by decide))

theorem readInteger?_digits (value : Nat) : readInteger? (digits value) = some (value : Int) := by
  have digit : ∀ c ∈ digits value, c.isDigit := fun _ mem => isDigit_of_mem_digits mem
  have read := readDigits?_digits value
  unfold readInteger?
  split
  · rename_i equal
    exact absurd (digit '+' (by simp [equal])) (by decide)
  · rename_i equal
    exact absurd (digit '-' (by simp [equal])) (by decide)
  · rw [read]
    rfl

theorem readInteger?_integer (value : Int) : readInteger? (integer value) = some value := by
  unfold integer
  split
  · rw [readInteger?, readDigits?_digits]
    exact congrArg some (by simp only [Int.ofNat_eq_natCast]; omega)
  · rw [readInteger?_digits]
    exact congrArg some (by omega)

theorem readInteger?_signedInteger (value : Int) :
    readInteger? (signedInteger value) = some value := by
  unfold signedInteger
  split
  · rw [readInteger?, readDigits?_digits]
    exact congrArg some (by simp only [Int.ofNat_eq_natCast]; omega)
  · rw [readInteger?, readDigits?_digits]
    exact congrArg some (by simp only [Int.ofNat_eq_natCast]; omega)

end FlatTree.Text
