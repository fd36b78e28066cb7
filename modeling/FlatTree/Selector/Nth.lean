import FlatTree.Text.Ascii
import FlatTree.Text.Decimal

/-!
# Positions `an+b`

The argument of `:nth-child()` names the positions `step * k + offset` with `k` not negative.  Both
numbers have 32 bits.  Positions are compared in arithmetic of 64 bits; a position that does not fit is
never selected.  Where the arithmetic overflows or divides by zero it ends the whole run, and there is no
result.
-/

namespace FlatTree.Selector

/-! ## Checked arithmetic -/

/-- The difference, if it has 64 bits. -/
def subtract? (left right : Int64) : Option Int64 :=
  let difference := left.toInt - right.toInt
  if Int64.minValue.toInt ≤ difference ∧ difference ≤ Int64.maxValue.toInt then
    some (.ofInt difference)
  else
    none

/-- Whether the quotient exists and has 64 bits.  The remainder is refused with it. -/
def divides (divisor number : Int64) : Bool :=
  divisor ≠ 0 && !(number = Int64.minValue && divisor = -1)

/-- The remainder of the division toward zero. -/
def remainder? (number divisor : Int64) : Option Int64 :=
  if divides divisor number then some (number % divisor) else none

/-- The quotient of the division toward zero. -/
def quotient? (number divisor : Int64) : Option Int64 :=
  if divides divisor number then some (number / divisor) else none

/-! ## Positions -/

structure Nth where
  step : Int32
  offset : Int32
deriving DecidableEq

namespace Nth

def odd : Nth := ⟨2, 1⟩

def even : Nth := ⟨2, 0⟩

def positionBound : Nat := 0x8000000000000000

/-- Whether a position is selected, where the arithmetic gets that far. -/
def selects? (nth : Nth) (position : Nat) : Option Bool :=
  if position < positionBound then do
    let difference ← subtract? (.ofNat position) nth.offset.toInt64
    if nth.step = 0 then
      return difference = 0
    if (← remainder? difference nth.step.toInt64) = 0 then
      return 0 ≤ (← quotient? difference nth.step.toInt64)
    return false
  else
    some false

/-- A position that has no result is not selected. -/
def selects (nth : Nth) (position : Nat) : Bool :=
  nth.selects? position = some true

/-- The 32-bit number that a signed run of digits stands for. -/
def readNumber? (text : List Char) : Option Int32 :=
  match Text.readInteger? text with
  | some value =>
    if Int32.minValue.toInt ≤ value && value ≤ Int32.maxValue.toInt then some (Int32.ofInt value)
    else none
  | none => none

/-- The number before the `n`, where a sign alone or nothing stands for one step. -/
def readStep? : List Char → Option Int32
  | [] => some 1
  | ['+'] => some 1
  | ['-'] => some (-1)
  | text => readNumber? text

/-- The number behind the `n`: nothing, or a sign that blanks may surround and digits. -/
def readOffset? (text : List Char) : Option Int32 :=
  match Text.trimAsciiStart text with
  | [] => some 0
  | '+' :: digits => readUnsigned '+' digits
  | '-' :: digits => readUnsigned '-' digits
  | _ => none
where
  readUnsigned (sign : Char) (digits : List Char) : Option Int32 :=
    readNumber? (sign :: Text.trimAsciiStart digits)

/-- Reads an argument without its parentheses, whatever the case of its letters. -/
def read? (argument : List Char) : Option Nth :=
  let text := Text.asciiLower (Text.trimAscii argument)
  if text = ['o', 'd', 'd'] then
    some odd
  else if text = ['e', 'v', 'e', 'n'] then
    some even
  else
    match text.dropWhile (· ≠ 'n') with
    | [] => (readNumber? text).map fun offset => ⟨0, offset⟩
    | _ :: behind =>
      match readStep? (text.takeWhile (· ≠ 'n')), readOffset? behind with
      | some step, some offset => some ⟨step, offset⟩
      | _, _ => none

def render (nth : Nth) : List Char :=
  if nth.step = 0 then
    Text.integer nth.offset.toInt
  else if nth.offset = 0 then
    Text.integer nth.step.toInt ++ ['n']
  else
    Text.integer nth.step.toInt ++ 'n' :: Text.signedInteger nth.offset.toInt

end Nth

end FlatTree.Selector
