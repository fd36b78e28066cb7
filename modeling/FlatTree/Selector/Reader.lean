import FlatTree.Selector.Fault
import FlatTree.Text.Ascii

/-!
# Readers

A reader takes a value from the front of a text.  Every success takes at least one character and
leaves an end of the text, so a reader can be run again and again on what it leaves.
-/

namespace FlatTree.Selector

/-- `rest` is an end of `text` behind at least its first character. -/
def Follows (rest text : List Char) : Prop :=
  text ≠ [] ∧ rest <:+ text.tail

namespace Follows

variable {rest text other : List Char}

theorem length_lt (follows : Follows rest text) : rest.length < text.length := by
  obtain ⟨nonempty, suffix⟩ := follows
  have := suffix.length_le
  cases text with
  | nil => contradiction
  | cons c more => simp at this ⊢; omega

theorem suffix (follows : Follows rest text) : rest <:+ text :=
  follows.2.trans (List.tail_suffix text)

theorem cons {c : Char} (suffix : rest <:+ other) : Follows rest (c :: other) :=
  ⟨by simp, suffix⟩

theorem of_suffix (suffix : rest <:+ other) (follows : Follows other text) : Follows rest text :=
  ⟨follows.1, suffix.trans follows.2⟩

theorem of_follows (follows : Follows rest other) (suffix : other <:+ text) : Follows rest text := by
  obtain ⟨taken, rfl⟩ := suffix
  cases taken with
  | nil => simpa using follows
  | cons c taken => exact cons (follows.suffix.trans (List.suffix_append taken other))

end Follows

/-- A value and the text behind it, or the cause for which there is none. -/
abbrev Reading (α : Type) := Except (Fault (List Char)) (α × List Char)

structure Reader (α : Type) where
  read : List Char → Reading α
  follows : ∀ {text value rest}, read text = .ok (value, rest) → Follows rest text

namespace Reader

variable {α : Type}

/-- The reader that accepts nothing. -/
def fail (error : Fault (List Char)) : Reader α where
  read _ := .error error
  follows := by simp

/-- Reads items as long as the next character starts one. -/
def many (item : Reader α) (starts : Char → Bool) (text : List Char) : Reading (List α) :=
  match text with
  | [] => .ok ([], [])
  | c :: more =>
    if starts c then
      match _taken : item.read (c :: more) with
      | .error error => .error error
      | .ok (value, rest) =>
        match many item starts rest with
        | .error error => .error error
        | .ok (values, rest) => .ok (value :: values, rest)
    else
      .ok ([], c :: more)
termination_by text.length
decreasing_by exact (item.follows _taken).length_lt

theorem many_suffix (item : Reader α) (starts : Char → Bool) {text rest : List Char}
    {values : List α} (result : item.many starts text = .ok (values, rest)) : rest <:+ text := by
  fun_induction many item starts text generalizing values rest with
  | case1 => simp_all
  | case2 => simp_all
  | case3 c more starts value behind taken error failed ih => simp_all
  | case4 c more starts value behind taken others rest' found ih =>
    cases result
    exact (ih found).trans (item.follows taken).suffix
  | case5 => simp_all

end Reader

theorem trimAsciiStart_suffix (text : List Char) : Text.trimAsciiStart text <:+ text :=
  List.dropWhile_suffix _

end FlatTree.Selector
