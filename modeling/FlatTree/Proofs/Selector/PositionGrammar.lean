import FlatTree.Proofs.Selector.SpelledNames

/-!
# The grammar of positions

A position is one of two words, a number, or a step, the letter `n` and a tail with the offset.  Numbers
are runs of digits behind at most one sign, and it is the signed value that has 32 bits.  Blanks stand
around the whole and around the sign of the tail, and letters are written in any case.  Reading accepts
exactly what the grammar spells, and refuses every other argument.
-/

namespace FlatTree.Selector

/-! ## Grammar -/

/-- A run of digits that is not empty. -/
structure IsDigits (text : List Char) : Prop where
  ne_nil : text ≠ []
  isDigit : ∀ c ∈ text, c.isDigit = true

def digitsValue (digits : List Char) : Int :=
  Nat.ofDigitChars 10 digits 0

/-- The signs, each with the factor that it stands for. -/
inductive SpellsSign : Int → Char → Prop where
  | plus : SpellsSign 1 '+'
  | minus : SpellsSign (-1) '-'

/-- Digits behind at most one sign. -/
inductive SpellsInteger : Int → List Char → Prop where
  | unsigned {digits : List Char} (hdigits : IsDigits digits) :
      SpellsInteger (digitsValue digits) digits
  | signed {factor : Int} {sign : Char} {digits : List Char} (hsign : SpellsSign factor sign)
      (hdigits : IsDigits digits) : SpellsInteger (factor * digitsValue digits) (sign :: digits)

/-- What stands before the `n`: a number, or one step where there is nothing or only a sign. -/
inductive SpellsStep (step : Int32) : List Char → Prop where
  | omitted (hstep : step = 1) : SpellsStep step []
  | sign {sign : Char} (hsign : SpellsSign step.toInt sign) : SpellsStep step [sign]
  | number {text : List Char} (hnumber : SpellsInteger step.toInt text) : SpellsStep step text

/-- What stands behind the `n`: nothing, or digits behind one sign that blanks may surround. -/
inductive SpellsTail (offset : Int32) : List Char → Prop where
  | omitted (hoffset : offset = 0) : SpellsTail offset []
  | signed {factor : Int} {sign : Char} {front gap digits : List Char} (hfront : Blanks front)
      (hsign : SpellsSign factor sign) (hgap : Blanks gap) (hdigits : IsDigits digits)
      (hoffset : offset.toInt = factor * digitsValue digits) :
      SpellsTail offset (front ++ sign :: (gap ++ digits))

/-- A position in lower case, without blanks around it. -/
inductive SpellsPosition : Nth → List Char → Prop where
  | odd : SpellsPosition ⟨2, 1⟩ ['o', 'd', 'd']
  | even : SpellsPosition ⟨2, 0⟩ ['e', 'v', 'e', 'n']
  | offset {offset : Int32} {text : List Char} (hoffset : SpellsInteger offset.toInt text) :
      SpellsPosition ⟨0, offset⟩ text
  | steps {step offset : Int32} {text tail : List Char} (hstep : SpellsStep step text)
      (htail : SpellsTail offset tail) : SpellsPosition ⟨step, offset⟩ (text ++ 'n' :: tail)

/-- Blanks may stand around a position, and its letters are written in any case. -/
def Nth.SpelledBy (nth : Nth) (argument : List Char) : Prop :=
  ∃ front middle back, argument = front ++ middle ++ back ∧ Blanks front ∧
    SpellsPosition nth (Text.asciiLower middle) ∧ Blanks back

/-! ## Numbers -/

theorem readDigits?_eq_some_iff {text : List Char} {value : Nat} :
    Text.readDigits? text = some value ↔ IsDigits text ∧ Nat.ofDigitChars 10 text 0 = value := by
  rw [Text.readDigits?]
  constructor
  · intro hread
    split at hread
    · rename_i hall
      rw [Bool.and_eq_true, Bool.not_eq_true', List.isEmpty_eq_false_iff, List.all_eq_true] at hall
      exact ⟨⟨hall.1, hall.2⟩, Option.some.inj hread⟩
    · contradiction
  · rintro ⟨⟨hne, hdigit⟩, hvalue⟩
    rw [if_pos, hvalue]
    rw [Bool.and_eq_true, Bool.not_eq_true', List.isEmpty_eq_false_iff, List.all_eq_true]
    exact ⟨hne, hdigit⟩

theorem IsDigits.readDigits? {digits : List Char} (hdigits : IsDigits digits) :
    Text.readDigits? digits = some (Nat.ofDigitChars 10 digits 0) :=
  readDigits?_eq_some_iff.mpr ⟨hdigits, rfl⟩

theorem readInteger?_eq_some_iff {text : List Char} {value : Int} :
    Text.readInteger? text = some value ↔ SpellsInteger value text := by
  constructor
  · intro hread
    rw [Text.readInteger?.eq_def] at hread
    split at hread
    all_goals
      obtain ⟨found, hfound, rfl⟩ := Option.map_eq_some_iff.mp hread
      obtain ⟨hdigits, rfl⟩ := readDigits?_eq_some_iff.mp hfound
    · simpa [digitsValue] using SpellsInteger.signed .plus hdigits
    · simpa [digitsValue] using SpellsInteger.signed .minus hdigits
    · exact .unsigned hdigits
  · intro hspells
    cases hspells with
    | unsigned hdigits =>
        rw [Text.readInteger?.eq_def]
        split
        · exact absurd (hdigits.isDigit '+' List.mem_cons_self) (by decide)
        · exact absurd (hdigits.isDigit '-' List.mem_cons_self) (by decide)
        · rw [hdigits.readDigits?]
          rfl
    | signed hsign hdigits =>
        cases hsign with
        | plus => simp [Text.readInteger?, hdigits.readDigits?, digitsValue]
        | minus => simp [Text.readInteger?, hdigits.readDigits?, digitsValue]

/-- The digits and the sign of a number with a sign are determined. -/
theorem SpellsSign.spellsInteger_iff {factor value : Int} {sign : Char} {digits : List Char}
    (hsign : SpellsSign factor sign) :
    SpellsInteger value (sign :: digits) ↔ IsDigits digits ∧ value = factor * digitsValue digits := by
  constructor
  · intro hspells
    cases hspells with
    | unsigned hdigits =>
        have hdigit := hdigits.isDigit sign List.mem_cons_self
        cases hsign <;> exact absurd hdigit (by decide)
    | signed hother hdigits => cases hsign <;> cases hother <;> exact ⟨hdigits, rfl⟩
  · rintro ⟨hdigits, rfl⟩
    exact .signed hsign hdigits

/-! ## Characters of numbers -/

/-- The characters of a position that is not one of the two words, but for blanks. -/
def isPositionMark (c : Char) : Bool :=
  c.isDigit || c = '-' || c = '+' || c = 'n'

theorem isAsciiBlank_eq_false_of_isPositionMark {c : Char} (hmark : isPositionMark c = true) :
    Text.isAsciiBlank c = false :=
  isAsciiBlank_eq_false (by decide) hmark

/-- A text of the marks of positions is neither of the two words. -/
theorem not_word_of_isPositionMark {text : List Char}
    (hmarks : ∀ c ∈ text, isPositionMark c = true) :
    text ≠ ['o', 'd', 'd'] ∧ text ≠ ['e', 'v', 'e', 'n'] := by
  constructor
  · rintro rfl
    exact absurd (hmarks 'o' (by decide)) (by decide)
  · rintro rfl
    exact absurd (hmarks 'e' (by decide)) (by decide)

theorem isPositionMark_of_isDigit {c : Char} (hdigit : c.isDigit = true) :
    isPositionMark c = true ∧ c ≠ 'n' := by
  refine ⟨by simp [isPositionMark, hdigit], ?_⟩
  rintro rfl
  exact absurd hdigit (by decide)

theorem SpellsSign.isPositionMark {factor : Int} {sign : Char} (hsign : SpellsSign factor sign) :
    isPositionMark sign = true ∧ sign ≠ 'n' := by
  cases hsign <;> decide

theorem isPositionMark_of_spellsInteger {value : Int} {text : List Char}
    (hspells : SpellsInteger value text) : ∀ c ∈ text, isPositionMark c = true ∧ c ≠ 'n' := by
  cases hspells with
  | unsigned hdigits => exact fun c hc => isPositionMark_of_isDigit (hdigits.isDigit c hc)
  | signed hsign hdigits =>
      rw [List.forall_mem_cons]
      exact ⟨hsign.isPositionMark, fun c hc => isPositionMark_of_isDigit (hdigits.isDigit c hc)⟩

namespace Nth

theorem readNumber?_of_readInteger? {text : List Char} {value : Int32}
    (hread : Text.readInteger? text = some value.toInt) : readNumber? text = some value := by
  have hlow : Int32.minValue.toInt ≤ value.toInt := Int32.le_toInt value
  have hhigh : value.toInt ≤ Int32.maxValue.toInt := Int32.toInt_le value
  rw [readNumber?, hread]
  simp only [hlow, hhigh, decide_true, Bool.and_self, if_true, Int32.ofInt_toInt]

theorem readStep?_of_readNumber? {text : List Char} {value : Int32}
    (hread : readNumber? text = some value) : readStep? text = some value := by
  unfold readStep?
  split
  · cases hread
  · cases hread
  · cases hread
  · exact hread

/-- A number that reads has 32 bits with its sign. -/
theorem readNumber?_eq_some_iff {text : List Char} {number : Int32} :
    readNumber? text = some number ↔ SpellsInteger number.toInt text := by
  rw [← readInteger?_eq_some_iff]
  refine ⟨fun hread => ?_, readNumber?_of_readInteger?⟩
  rw [readNumber?] at hread
  split at hread
  · rename_i value hvalue
    split at hread
    · rename_i hrange
      rw [Bool.and_eq_true, decide_eq_true_eq, decide_eq_true_eq, Int32.toInt_minValue,
        Int32.toInt_maxValue] at hrange
      rw [hvalue, ← Option.some.inj hread, Int32.toInt_ofInt_of_le (by omega) (by omega)]
    · contradiction
  · contradiction

/-! ## Steps and tails -/

theorem readStep?_eq_some_iff {text : List Char} {step : Int32} :
    readStep? text = some step ↔ SpellsStep step text := by
  constructor
  · intro hread
    unfold readStep? at hread
    split at hread
    · exact .omitted (Option.some.inj hread).symm
    · rw [← Option.some.inj hread]
      exact .sign .plus
    · rw [← Option.some.inj hread]
      exact .sign .minus
    · exact .number (readNumber?_eq_some_iff.mp hread)
  · intro hspells
    cases hspells with
    | omitted hstep => rw [hstep, readStep?]
    | sign hsign =>
        generalize hfactor : step.toInt = factor at hsign
        cases hsign with
        | plus => exact congrArg some (Int32.toInt_inj.mp hfactor.symm)
        | minus => exact congrArg some (Int32.toInt_inj.mp hfactor.symm)
    | number hnumber => exact readStep?_of_readNumber? (readNumber?_eq_some_iff.mpr hnumber)

theorem readUnsigned_eq_some_iff {factor : Int} {sign : Char} (hsign : SpellsSign factor sign)
    {text : List Char} {offset : Int32} :
    readOffset?.readUnsigned sign text = some offset ↔ IsDigits (Text.trimAsciiStart text) ∧
      offset.toInt = factor * digitsValue (Text.trimAsciiStart text) := by
  rw [readOffset?.readUnsigned, readNumber?_eq_some_iff, hsign.spellsInteger_iff]

theorem readOffset?_of_spellsTail {text : List Char} {offset : Int32}
    (hspells : SpellsTail offset text) : readOffset? text = some offset := by
  cases hspells with
  | omitted hoffset => exact congrArg some hoffset.symm
  | @signed factor sign front gap digits hfront hsign hgap hdigits hoffset =>
      have hblank := isAsciiBlank_eq_false_of_isPositionMark hsign.isPositionMark.1
      have htrimmed : Text.trimAsciiStart (gap ++ digits) = digits := by
        rw [trimAsciiStart_append hgap, trimAsciiStart_of_not_isAsciiBlank]
        intro c hc
        exact isAsciiBlank_eq_false_of_isPositionMark
          (isPositionMark_of_isDigit (hdigits.isDigit c hc)).1
      have hread : readOffset?.readUnsigned sign (gap ++ digits) = some offset := by
        rw [readUnsigned_eq_some_iff hsign, htrimmed]
        exact ⟨hdigits, hoffset⟩
      rw [readOffset?, trimAsciiStart_append hfront, trimAsciiStart_cons hblank]
      cases hsign with
      | plus => exact hread
      | minus => exact hread

end Nth

theorem exists_blanks_trimAsciiStart (text : List Char) :
    ∃ front, Blanks front ∧ text = front ++ Text.trimAsciiStart text :=
  ⟨text.takeWhile Text.isAsciiBlank, fun _ hc => List.mem_takeWhile_imp hc,
    List.takeWhile_append_dropWhile.symm⟩

/-- Behind the `n` blanks alone would read as no offset. -/
theorem Nth.spellsTail_of_readOffset? {text : List Char} {offset : Int32}
    (hread : readOffset? text = some offset) : SpellsTail offset text ∨ Blanks text ∧ text ≠ [] := by
  obtain ⟨front, hfront, htext⟩ := exists_blanks_trimAsciiStart text
  have htail {factor : Int} {sign : Char} {rest : List Char} (hsign : SpellsSign factor sign)
      (htrimmed : Text.trimAsciiStart text = sign :: rest)
      (hread : readOffset?.readUnsigned sign rest = some offset) : SpellsTail offset text := by
    obtain ⟨hdigits, hoffset⟩ := (readUnsigned_eq_some_iff hsign).mp hread
    obtain ⟨gap, hgap, hrest⟩ := exists_blanks_trimAsciiStart rest
    rw [htext, htrimmed, hrest]
    exact .signed hfront hsign hgap hdigits hoffset
  unfold readOffset? at hread
  split at hread
  · rename_i htrimmed
    rw [htrimmed, List.append_nil] at htext
    rw [htext]
    by_cases hempty : front = []
    · rw [hempty]
      exact .inl (.omitted (Option.some.inj hread).symm)
    · exact .inr ⟨hfront, hempty⟩
  · rename_i htrimmed
    exact .inl (htail .plus htrimmed hread)
  · rename_i htrimmed
    exact .inl (htail .minus htrimmed hread)
  · contradiction

/-! ## Positions -/

theorem isPositionMark_of_spellsStep {step : Int32} {text : List Char}
    (hspells : SpellsStep step text) : ∀ c ∈ text, isPositionMark c = true ∧ c ≠ 'n' := by
  cases hspells with
  | omitted => nofun
  | sign hsign => simpa using hsign.isPositionMark
  | number hnumber => exact isPositionMark_of_spellsInteger hnumber

/-- The first `n` parts the step from the tail. -/
theorem takeWhile_dropWhile_n {text : List Char} (htext : ∀ c ∈ text, c ≠ 'n') (tail : List Char) :
    (text ++ 'n' :: tail).takeWhile (· ≠ 'n') = text ∧
      (text ++ 'n' :: tail).dropWhile (· ≠ 'n') = 'n' :: tail := by
  have hall : ∀ c ∈ text, decide (c ≠ 'n') = true := fun c hc => decide_eq_true (htext c hc)
  constructor
  · rw [List.takeWhile_append_of_pos hall, List.takeWhile_cons_of_neg (by decide), List.append_nil]
  · rw [List.dropWhile_append_of_pos hall, List.dropWhile_cons_of_neg (by decide)]

theorem Nth.read?_of_spellsPosition {nth : Nth} {argument : List Char}
    (hspells : SpellsPosition nth (Text.asciiLower (Text.trimAscii argument))) :
    read? argument = some nth := by
  simp only [read?]
  generalize Text.asciiLower (Text.trimAscii argument) = text at hspells
  cases hspells with
  | odd => rfl
  | even => rfl
  | offset hoffset =>
      have hmarks := isPositionMark_of_spellsInteger hoffset
      obtain ⟨hodd, heven⟩ := not_word_of_isPositionMark fun c hc => (hmarks c hc).1
      have hdrop : text.dropWhile (· ≠ 'n') = [] := by
        rw [List.dropWhile_eq_nil_iff]
        exact fun c hc => decide_eq_true (hmarks c hc).2
      rw [if_neg hodd, if_neg heven, hdrop, readNumber?_eq_some_iff.mpr hoffset]
      rfl
  | @steps step offset text tail hstep htail =>
      have hmarks := isPositionMark_of_spellsStep hstep
      obtain ⟨htake, hdrop⟩ := takeWhile_dropWhile_n (fun c hc => (hmarks c hc).2) tail
      have hodd : text ++ 'n' :: tail ≠ ['o', 'd', 'd'] := by
        intro hword
        have hn : 'n' ∈ text ++ 'n' :: tail := List.mem_append_cons_self
        rw [hword] at hn
        exact absurd hn (by decide)
      have heven : text ++ 'n' :: tail ≠ ['e', 'v', 'e', 'n'] := by
        intro hword
        rw [hword] at htake
        rw [← htake] at hmarks
        exact absurd (hmarks 'e' (by decide)).1 (by decide)
      rw [if_neg hodd, if_neg heven, htake, hdrop]
      simp only [readStep?_eq_some_iff.mpr hstep, readOffset?_of_spellsTail htail]

/-- A trimmed text does not end with a blank. -/
theorem isAsciiBlank_getLast?_trimAscii (text : List Char) :
    ∀ c ∈ (Text.trimAscii text).getLast?, Text.isAsciiBlank c = false := by
  intro c hc
  rw [Text.trimAscii, List.getLast?_reverse] at hc
  have hhead := List.head?_dropWhile_not Text.isAsciiBlank (Text.trimAsciiStart text).reverse
  rw [← Text.trimAsciiStart, Option.mem_def.mp hc] at hhead
  simpa using hhead

/-- Blanks are no letters, so they are the same in lower case. -/
theorem isAsciiBlank_toLower (c : Char) : Text.isAsciiBlank c.toLower = Text.isAsciiBlank c := by
  by_cases hupper : c.isUpper = true
  · have halpha : c.isAlpha = true := by simp [Char.isAlpha, hupper]
    have hlower : c.toLower.isAlpha = true := by rw [Char.isAlpha_toLower_eq_isAlpha, halpha]
    rw [isAsciiBlank_eq_false (by decide) halpha, isAsciiBlank_eq_false (by decide) hlower]
  · rw [Char.toLower_eq_of_not_isUpper hupper]

/-- A trimmed text is not blank behind its `n`, for blanks would stand at its end. -/
theorem Nth.spellsPosition_of_read? {nth : Nth} {argument : List Char}
    (hread : read? argument = some nth) :
    SpellsPosition nth (Text.asciiLower (Text.trimAscii argument)) := by
  have hlast : ∀ c ∈ (Text.asciiLower (Text.trimAscii argument)).getLast?,
      Text.isAsciiBlank c = false := by
    intro c hc
    rw [Text.asciiLower, List.getLast?_map, Option.mem_map] at hc
    obtain ⟨last, hlast, rfl⟩ := hc
    rw [isAsciiBlank_toLower]
    exact isAsciiBlank_getLast?_trimAscii argument last hlast
  simp only [read?] at hread
  generalize Text.asciiLower (Text.trimAscii argument) = text at hlast hread
  split at hread
  · rename_i hodd
    rw [hodd, ← Option.some.inj hread]
    exact .odd
  · split at hread
    · rename_i heven
      rw [heven, ← Option.some.inj hread]
      exact .even
    · have htext := List.takeWhile_append_dropWhile (p := (· ≠ 'n')) (l := text)
      split at hread
      · obtain ⟨offset, hoffset, rfl⟩ := Option.map_eq_some_iff.mp hread
        exact .offset (readNumber?_eq_some_iff.mp hoffset)
      · rename_i head tail hdrop
        have hhead : head = 'n' := by
          have hfalse := List.head?_dropWhile_not (· ≠ 'n') text
          rw [hdrop] at hfalse
          simpa using hfalse
        rw [hdrop, hhead] at htext
        split at hread
        · rename_i step offset hstep hoffset
          rw [← Option.some.inj hread, ← htext]
          rcases spellsTail_of_readOffset? hoffset with htail | ⟨hblanks, hne⟩
          · exact .steps (readStep?_eq_some_iff.mp hstep) htail
          · have hmem : tail.getLast hne ∈ text.getLast? := by
              rw [← htext]
              simp [List.getLast?_cons, List.getLast?_eq_getLast_of_ne_nil hne]
            have hblank := hlast _ hmem
            rw [hblanks _ (List.getLast_mem hne)] at hblank
            contradiction
        · contradiction

/-! ## Blanks around a position -/

theorem exists_blanks_trimAscii (text : List Char) :
    ∃ front back, text = front ++ Text.trimAscii text ++ back ∧ Blanks front ∧ Blanks back := by
  obtain ⟨front, hfront, htext⟩ := exists_blanks_trimAsciiStart text
  obtain ⟨back, hback, hrest⟩ := exists_blanks_trimAsciiStart (Text.trimAsciiStart text).reverse
  refine ⟨front, back.reverse, ?_, hfront, fun c hc => hback c (List.mem_reverse.mp hc)⟩
  rw [Text.trimAscii, List.append_assoc, ← List.reverse_append, ← hrest, List.reverse_reverse, ← htext]

/-- Trimming takes away the blanks around a text that has none at its ends. -/
theorem trimAscii_blanks {front middle back : List Char} (hfront : Blanks front) (hback : Blanks back)
    (hne : middle ≠ []) (hhead : ∀ c ∈ middle.head?, Text.isAsciiBlank c = false)
    (hlast : ∀ c ∈ middle.getLast?, Text.isAsciiBlank c = false) :
    Text.trimAscii (front ++ middle ++ back) = middle := by
  have hstart : Text.trimAsciiStart (middle ++ back) = middle ++ back := by
    obtain ⟨c, rest, rfl⟩ := List.exists_cons_of_ne_nil hne
    exact trimAsciiStart_cons (hhead c rfl) (rest ++ back)
  have hend : Text.trimAsciiStart middle.reverse = middle.reverse := by
    obtain ⟨c, rest, hreverse⟩ := List.exists_cons_of_ne_nil (List.reverse_ne_nil_iff.mpr hne)
    rw [hreverse]
    apply trimAsciiStart_cons
    apply hlast
    rw [← List.head?_reverse, hreverse]
    rfl
  have hbackReverse : Blanks back.reverse := fun c hc => hback c (List.mem_reverse.mp hc)
  rw [Text.trimAscii, List.append_assoc, trimAsciiStart_append hfront, hstart, List.reverse_append,
    trimAsciiStart_append hbackReverse, hend, List.reverse_reverse]

theorem SpellsInteger.ne_nil {value : Int} {text : List Char} (hspells : SpellsInteger value text) :
    text ≠ [] := by
  cases hspells with
  | unsigned hdigits => exact hdigits.ne_nil
  | signed => exact List.cons_ne_nil _ _

/-- A tail ends with a digit. -/
theorem SpellsTail.isDigit_getLast? {offset : Int32} {tail : List Char} (hspells : SpellsTail offset tail) :
    ∀ c ∈ tail.getLast?, c.isDigit = true := by
  cases hspells with
  | omitted => nofun
  | @signed factor sign front gap digits hfront hsign hgap hdigits =>
      intro c hc
      have hlast : (front ++ sign :: (gap ++ digits)).getLast? = digits.getLast? := by
        rw [List.getLast?_append_of_ne_nil _ (List.cons_ne_nil _ _), ← List.cons_append,
          List.getLast?_append_of_ne_nil _ hdigits.ne_nil]
      rw [hlast] at hc
      exact hdigits.isDigit c (List.mem_of_getLast? hc)

/-- A position has no blanks at its ends. -/
theorem SpellsPosition.ends {nth : Nth} {text : List Char} (hspells : SpellsPosition nth text) :
    text ≠ [] ∧ (∀ c ∈ text.head?, Text.isAsciiBlank c = false) ∧
      ∀ c ∈ text.getLast?, Text.isAsciiBlank c = false := by
  cases hspells with
  | odd => simp [Text.isAsciiBlank]
  | even => simp [Text.isAsciiBlank]
  | offset hoffset =>
      have hplain : ∀ c ∈ text, Text.isAsciiBlank c = false := fun c hc =>
        isAsciiBlank_eq_false_of_isPositionMark (isPositionMark_of_spellsInteger hoffset c hc).1
      exact ⟨hoffset.ne_nil, fun c hc => hplain c (List.mem_of_head? hc),
        fun c hc => hplain c (List.mem_of_getLast? hc)⟩
  | @steps step offset text tail hstep htail =>
      refine ⟨List.append_ne_nil_of_right_ne_nil _ (List.cons_ne_nil _ _), ?_, ?_⟩
      · intro c hc
        cases text with
        | nil =>
            cases hc
            decide
        | cons first text =>
            cases hc
            exact isAsciiBlank_eq_false_of_isPositionMark
              (isPositionMark_of_spellsStep hstep c List.mem_cons_self).1
      · intro c hc
        rw [List.getLast?_append_of_ne_nil _ (List.cons_ne_nil _ _), List.getLast?_cons] at hc
        cases hlast : tail.getLast? with
        | none =>
            rw [hlast] at hc
            cases hc
            decide
        | some last =>
            rw [hlast] at hc
            cases hc
            exact isAsciiBlank_eq_false_of_isPositionMark
              (isPositionMark_of_isDigit (htail.isDigit_getLast? last hlast)).1

theorem Nth.read?_eq_some_iff {argument : List Char} {nth : Nth} :
    read? argument = some nth ↔ nth.SpelledBy argument := by
  constructor
  · intro hread
    obtain ⟨front, back, hargument, hfront, hback⟩ := exists_blanks_trimAscii argument
    exact ⟨front, _, back, hargument, hfront, spellsPosition_of_read? hread, hback⟩
  · rintro ⟨front, middle, back, rfl, hfront, hspells, hback⟩
    obtain ⟨hne, hhead, hlast⟩ := hspells.ends
    apply read?_of_spellsPosition
    rw [trimAscii_blanks hfront hback]
    · exact hspells
    · simpa [Text.asciiLower] using hne
    · intro c hc
      rw [← isAsciiBlank_toLower]
      exact hhead _ (by simp [Text.asciiLower, Option.mem_def.mp hc])
    · intro c hc
      rw [← isAsciiBlank_toLower]
      exact hlast _ (by simp [Text.asciiLower, Option.mem_def.mp hc])

/-- An argument reads as a position exactly if the grammar spells it so, and every argument that the
grammar does not spell is refused.  The fault holds the argument without the blanks around it. -/
theorem Nth.ofChars_iff_spelledBy {place : Type} (argument : List Char) :
    (∀ nth, (Nth.ofChars argument : Except (Fault place) Nth) = .ok nth ↔ nth.SpelledBy argument) ∧
      ∀ fault : Fault place, Nth.ofChars argument = .error fault ↔
        fault = .invalidNth (Text.trim argument) ∧ ∀ nth : Nth, ¬ nth.SpelledBy argument := by
  simp only [← read?_eq_some_iff, Nth.ofChars]
  cases hread : read? argument with
  | none => simp [eq_comm]
  | some nth => simp

/-- The least and the greatest number are not the same but for their signs. -/
example :
    Nth.read? " -2147483648N -\t002147483648 ".toList = some ⟨Int32.minValue, Int32.minValue⟩ ∧
      Nth.read? "+2147483647n+2147483647".toList = some ⟨Int32.maxValue, Int32.maxValue⟩ ∧
      Nth.read? "2147483648n".toList = none ∧ Nth.read? "n+2147483648".toList = none := by
  decide

end FlatTree.Selector
