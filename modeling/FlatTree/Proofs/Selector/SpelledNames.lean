import FlatTree.Proofs.Selector.Spelling
import FlatTree.Proofs.Text.Case

/-!
# Reading spelled names, values and attributes

Every spelling of a name reads as the name, whatever follows it that cannot continue a name: an escape
takes the blank that closes it, so no other blank is lost.  Values and attributes end with a mark of their
own, so they read back whatever follows them.
-/

namespace FlatTree.Selector

/-! ## Characters -/

theorem isDigit_iff_toNat (c : Char) : c.isDigit = true ↔ 48 ≤ c.toNat ∧ c.toNat ≤ 57 := by
  simp [Char.isDigit, UInt32.le_iff_toNat_le]

theorem isUpper_iff_toNat (c : Char) : c.isUpper = true ↔ 65 ≤ c.toNat ∧ c.toNat ≤ 90 := by
  change decide (c.val ≥ 65 ∧ c.val ≤ 90) = true ↔ _
  simp [UInt32.le_iff_toNat_le]

theorem isLower_iff_toNat (c : Char) : c.isLower = true ↔ 97 ≤ c.toNat ∧ c.toNat ≤ 122 := by
  change (decide (c.val ≥ 97) && decide (c.val ≤ 122)) = true ↔ _
  simp [UInt32.le_iff_toNat_le]

theorem le_iff_toNat_le (c other : Char) : c ≤ other ↔ c.toNat ≤ other.toNat := by
  simp [Char.le_def, UInt32.le_iff_toNat_le]

theorem hexValue_eq_none {c : Char} (hpart : isNamePart c = false) : hexValue c = none := by
  simp only [isNamePart, Char.isAlphanum, Bool.or_eq_false_iff] at hpart
  obtain ⟨⟨⟨⟨halpha, hdigit⟩, -⟩, -⟩, -⟩ := hpart
  obtain ⟨hupper, hlower⟩ : c.isUpper = false ∧ c.isLower = false := Bool.or_eq_false_iff.mp halpha
  rw [← Bool.not_eq_true, isUpper_iff_toNat] at hupper
  rw [← Bool.not_eq_true, isLower_iff_toNat] at hlower
  have hlow : ¬ ('a' ≤ c && c ≤ 'f') = true := by
    simp only [le_iff_toNat_le, Bool.and_eq_true, decide_eq_true_eq, Char.reduceToNat]
    omega
  have hup : ¬ ('A' ≤ c && c ≤ 'F') = true := by
    simp only [le_iff_toNat_le, Bool.and_eq_true, decide_eq_true_eq, Char.reduceToNat]
    omega
  rw [hexValue, hdigit, if_neg Bool.false_ne_true, if_neg hlow, if_neg hup]

theorem isNameStart_of_isNamePart {c : Char} (hpart : isNamePart c = true)
    (hdigit : c.isDigit = false) : isNameStart c = true := by
  simp only [isNamePart, isNameStart, Char.isAlphanum, hdigit, Bool.or_false, Bool.or_eq_true,
    decide_eq_true_eq] at hpart ⊢
  rcases hpart with ((halpha | hdash) | hscore) | hascii
  · exact .inl (.inl (.inl (.inl halpha)))
  · exact .inl (.inl (.inl (.inr hdash)))
  · exact .inl (.inl (.inr hscore))
  · exact .inr hascii

/-- A character of a kind that no blank is of is not a blank. -/
theorem isAsciiBlank_eq_false {kind : Char → Bool}
    (hblanks : ['\t', '\n', '\x0c', '\r', ' '].any kind = false) {c : Char} (hkind : kind c = true) :
    Text.isAsciiBlank c = false := by
  rw [List.any_eq_false] at hblanks
  rw [Bool.eq_false_iff]
  intro hblank
  apply hblanks c _ hkind
  simpa [Text.isAsciiBlank, or_assoc] using hblank

@[simp]
theorem charOfCode_toNat (c : Char) : charOfCode c.toNat = c :=
  dif_pos c.valid

/-! ## Blanks -/

theorem blanks_nil : Blanks [] := by
  intro c hc
  cases hc

theorem trimAsciiStart_cons {c : Char} (hblank : Text.isAsciiBlank c = false) (rest : List Char) :
    Text.trimAsciiStart (c :: rest) = c :: rest := by
  rw [Text.trimAsciiStart, List.dropWhile_cons, hblank, if_neg Bool.false_ne_true]

theorem trimAsciiStart_of_not_isAsciiBlank {text : List Char}
    (hblank : ∀ c ∈ text, Text.isAsciiBlank c = false) : Text.trimAsciiStart text = text := by
  cases text with
  | nil => rfl
  | cons c rest => exact trimAsciiStart_cons (hblank c List.mem_cons_self) rest

theorem isNamePart_of_isAsciiBlank {c : Char} (hblank : Text.isAsciiBlank c = true) :
    isNamePart c = false ∧ c ≠ '\\' := by
  simp only [Text.isAsciiBlank, Bool.or_eq_true, decide_eq_true_eq] at hblank
  rcases hblank with (((rfl | rfl) | rfl) | rfl) | rfl
  all_goals decide

theorem trimAsciiStart_append {front : List Char} (hfront : Blanks front) (rest : List Char) :
    Text.trimAsciiStart (front ++ rest) = Text.trimAsciiStart rest :=
  List.dropWhile_append_of_pos hfront

/-! ## Names -/

/-- A text that does not continue a name which stands before it. -/
def EndsName (rest : List Char) : Prop :=
  ∀ c ∈ rest.head?, isNamePart c = false ∧ c ≠ '\\'

theorem endsName_nil : EndsName [] := by
  intro c hc
  cases hc

theorem endsName_cons {c : Char} {rest : List Char} (hpart : isNamePart c = false)
    (hslash : c ≠ '\\') : EndsName (c :: rest) := by
  intro other hother
  cases hother
  exact ⟨hpart, hslash⟩

theorem Blanks.endsName_append {back : List Char} (hback : Blanks back) {rest : List Char}
    (hends : EndsName rest) : EndsName (back ++ rest) := by
  cases back with
  | nil => exact hends
  | cons c back =>
      obtain ⟨hpart, hslash⟩ := isNamePart_of_isAsciiBlank (hback c List.mem_cons_self)
      exact endsName_cons hpart hslash

theorem readEscape_of_hexValue_eq_none {c : Char} (hhex : hexValue c = none) (rest : List Char) :
    readEscape (c :: rest) = (c, rest) := by
  have hdigits : codeDigits (c :: rest) = [] := by
    simp [codeDigits, hhex]
  simp [readEscape, hdigits]

/-- A blank closes a code point, and is taken with it. -/
theorem readEscape_code {digits : List Char} {blank : Char} (hne : digits ≠ [])
    (hlength : digits.length ≤ 6) (hhex : ∀ digit ∈ digits, (hexValue digit).isSome = true)
    (hblank : Text.isAsciiBlank blank = true) (rest : List Char) :
    readEscape (digits ++ blank :: rest) = (charOfCode (codeValue digits), rest) := by
  have hclosing : hexValue blank = none := hexValue_eq_none (isNamePart_of_isAsciiBlank hblank).1
  have hend : ((blank :: rest).take (6 - digits.length)).takeWhile
      (fun c => (hexValue c).isSome) = [] := by
    cases 6 - digits.length with
    | zero => rfl
    | succ count => simp [hclosing]
  have hdigits : codeDigits (digits ++ blank :: rest) = digits := by
    rw [codeDigits, List.take_append, List.take_of_length_le hlength,
      List.takeWhile_append_of_pos hhex, hend, List.append_nil]
  obtain ⟨digit, more, rfl⟩ := List.exists_cons_of_ne_nil hne
  rw [List.cons_append] at hdigits
  rw [List.cons_append, readEscape]
  simp only [hdigits]
  rw [← List.cons_append, List.drop_left, dropOneBlank, if_pos hblank]

theorem readIdentifier_of_endsName {rest : List Char} (hends : EndsName rest) :
    readIdentifier rest = ([], rest) := by
  cases rest with
  | nil => rw [readIdentifier]
  | cons c more =>
      obtain ⟨hpart, hslash⟩ := hends c rfl
      rw [readIdentifier, if_neg hslash, hpart]
      rfl

theorem readIdentifier_spelled {c : Char} {text : List Char}
    (hchar : SpellsChar (isNamePart · = true) (fun _ => True) c text) (rest : List Char) :
    readIdentifier (text ++ rest) = (c :: (readIdentifier rest).1, (readIdentifier rest).2) := by
  cases hchar with
  | plain hpart =>
      have hslash : c ≠ '\\' := by
        rintro rfl
        exact absurd hpart (by decide)
      rw [List.singleton_append, readIdentifier, if_neg hslash, if_pos hpart]
  | escaped hhex _ =>
      rw [List.cons_append, List.singleton_append, readIdentifier, if_pos rfl,
        readEscape_of_hexValue_eq_none hhex]
  | code hne hlength hhex hcode hblank =>
      rw [List.cons_append, List.append_assoc, List.singleton_append, readIdentifier, if_pos rfl,
        readEscape_code hne hlength hhex hblank, hcode]

theorem readIdentifier_of_spellsName {name text : List Char} (hname : SpellsName name text)
    {rest : List Char} (hends : EndsName rest) : readIdentifier (text ++ rest) = (name, rest) := by
  induction hname with
  | nil => exact readIdentifier_of_endsName hends
  | cons hfirst _ ih => rw [List.append_assoc, readIdentifier_spelled hfirst, ih]

theorem spellsChars_of_plain {plain escapable : Char → Prop} {value : List Char}
    (hplain : ∀ c ∈ value, plain c) : SpellsChars plain escapable value value := by
  induction value with
  | nil => exact .nil
  | cons c value ih =>
      rw [List.forall_mem_cons] at hplain
      exact .cons (.plain hplain.1) (ih hplain.2)

/-- A name that is not empty opens with one of its own characters or a backslash. -/
theorem SpellsName.exists_cons {name text : List Char} (hname : SpellsName name text)
    (hne : name ≠ []) : ∃ c rest, text = c :: rest ∧ (isNamePart c = true ∨ c = '\\') := by
  cases hname with
  | nil => exact absurd rfl hne
  | cons hfirst hrest =>
      cases hfirst with
      | plain hpart => exact ⟨_, _, rfl, Or.inl hpart⟩
      | escaped hhex _ => exact ⟨_, _, rfl, Or.inr rfl⟩
      | code => exact ⟨_, _, rfl, Or.inr rfl⟩

theorem SpellsIdentifier.exists_cons {name text : List Char} (hname : SpellsIdentifier name text)
    (hne : name ≠ []) : ∃ c rest, text = c :: rest ∧ isNameStart c = true := by
  obtain ⟨c, rest, rfl, hpart | rfl⟩ := hname.spellsName.exists_cons hne
  · exact ⟨c, rest, rfl, isNameStart_of_isNamePart hpart (hname.not_digit c rfl)⟩
  · exact ⟨'\\', rest, rfl, by decide⟩

theorem expectIdentifier_of_spells {name text rest : List Char} (hname : SpellsIdentifier name text)
    (hne : name ≠ []) (hends : EndsName rest) :
    expectIdentifier (text ++ rest) = .ok (name, rest) := by
  have hread := readIdentifier_of_spellsName hname.spellsName hends
  obtain ⟨c, more, rfl, hstart⟩ := hname.exists_cons hne
  rw [List.cons_append] at hread ⊢
  rw [expectIdentifier, if_pos hstart, hread]

/-! ## Values -/

theorem readString_spelled {quote c : Char} {text : List Char} (hquote : quote ≠ '\\')
    (hchar : SpellsChar (fun c => c ≠ quote ∧ c ≠ '\\') (· ≠ '\n') c text) (rest : List Char) :
    readString quote (text ++ rest) =
      (readString quote rest).map fun value => (c :: value.1, value.2) := by
  cases hchar with
  | plain hplain =>
      rw [List.singleton_append, readString.eq_def]
      simp only [hplain.1, hplain.2, if_false]
  | escaped hhex hnewline =>
      rw [List.cons_append, List.singleton_append, readString, if_neg (Ne.symm hquote), if_pos rfl]
      simp only [hnewline, if_false, readEscape_of_hexValue_eq_none hhex]
  | @code digits blank hne hlength hhex hcode hblank =>
      have hread := readEscape_code hne hlength hhex hblank rest
      obtain ⟨digit, more, rfl⟩ := List.exists_cons_of_ne_nil hne
      have hnewline : digit ≠ '\n' := by
        rintro rfl
        exact absurd (hhex '\n' List.mem_cons_self) (by decide)
      rw [List.cons_append] at hread
      rw [List.cons_append, List.cons_append, List.cons_append, List.append_assoc,
        List.singleton_append, readString, if_neg (Ne.symm hquote), if_pos rfl]
      simp only [hnewline, if_false, hread, hcode]

theorem readString_of_spells {quote : Char} {value text : List Char} (hquote : quote ≠ '\\')
    (hvalue : SpellsChars (fun c => c ≠ quote ∧ c ≠ '\\') (· ≠ '\n') value text) (rest : List Char) :
    readString quote (text ++ quote :: rest) = some (value, rest) := by
  induction hvalue with
  | nil =>
      rw [List.nil_append, readString.eq_def]
      exact if_pos rfl
  | cons hfirst _ ih => rw [List.append_assoc, readString_spelled hquote hfirst, ih, Option.map_some]

/-- A spelled value opens with a quote, a character of names or a backslash. -/
theorem SpellsValue.exists_cons {value text : List Char} (hvalue : SpellsValue value text) :
    ∃ c rest, text = c :: rest ∧ Text.isAsciiBlank c = false := by
  cases hvalue with
  | quoted hquote _ =>
      rcases hquote with rfl | rfl
      · exact ⟨_, _, rfl, by decide⟩
      · exact ⟨_, _, rfl, by decide⟩
  | bare hne hname =>
      obtain ⟨c, rest, rfl, hpart | rfl⟩ := SpellsName.exists_cons hname hne
      · refine ⟨c, rest, rfl, Bool.eq_false_iff.mpr fun hblank => ?_⟩
        rw [(isNamePart_of_isAsciiBlank hblank).1] at hpart
        contradiction
      · exact ⟨_, _, rfl, by decide⟩

@[simp]
theorem Comparison.read?_render (comparison : Comparison) (rest : List Char) :
    Comparison.read? (comparison.render ++ rest) = some (comparison, rest) := by
  cases comparison <;> rfl

/-- A comparison starts with a mark that is neither blank nor part of a name, and is not a bracket. -/
theorem Comparison.render_eq_cons (comparison : Comparison) :
    ∃ c rest, comparison.render = c :: rest ∧ isNamePart c = false ∧ c ≠ '\\' ∧ c ≠ ']' ∧
      Text.isAsciiBlank c = false := by
  cases comparison
  all_goals exact ⟨_, _, rfl, by decide, by decide, by decide, by decide⟩

theorem SpellsTest.exists_cons {name : String} {value : Option (Comparison × String)} {text : List Char}
    (htest : SpellsTest name value text) : ∃ inside, text = '[' :: inside := by
  cases htest
  all_goals exact ⟨_, rfl⟩

namespace AttributeTest

theorem readValue_of_spells (opening : List Char) {value : String} {text rest : List Char}
    (hvalue : SpellsValue value.toList text) (hends : EndsName rest) :
    readValue opening (text ++ rest) = .ok (value, rest) := by
  cases hvalue with
  | @quoted quote text hquote hvalue =>
      have hslash : quote ≠ '\\' := by
        rcases hquote with rfl | rfl
        all_goals decide
      have hopens : (quote = '"' || quote = '\'') = true := by
        rcases hquote with rfl | rfl
        all_goals decide
      rw [List.cons_append, List.append_assoc, List.singleton_append, readValue, if_pos hopens,
        readString_of_spells hslash hvalue]
      simp only [String.ofList_toList]
  | bare hne hname =>
      have hread := readIdentifier_of_spellsName hname hends
      obtain ⟨c, more, rfl, hfirst⟩ := SpellsName.exists_cons hname hne
      have hquote : ¬ (c = '"' || c = '\'') = true := by
        intro hquote
        rw [Bool.or_eq_true, decide_eq_true_eq, decide_eq_true_eq] at hquote
        rcases hquote with rfl | rfl
        all_goals exact absurd hfirst (by decide)
      have hopens : (isNameStart c || c.isDigit) = true := by
        rcases hfirst with hpart | rfl
        · cases hdigit : c.isDigit with
          | true => exact Bool.or_true _
          | false => rw [isNameStart_of_isNamePart hpart hdigit, Bool.true_or]
        · decide
      rw [List.cons_append] at hread ⊢
      rw [readValue, if_neg hquote, if_pos hopens, hread]
      simp only [String.ofList_toList]

theorem close_of_blanks (opening : List Char) {back : List Char} (hback : Blanks back)
    (rest : List Char) : close opening (back ++ ']' :: rest) = .ok rest := by
  rw [close, trimAsciiStart_append hback, trimAsciiStart_cons (by decide)]
  rfl

/-- The name of a spelled attribute, with the blanks around it. -/
theorem readIdentifier_of_blanks {name : String} {front text back rest : List Char} (hfront : Blanks front)
    (hname : SpellsAttributeName name text) (hne : name ≠ "") (hback : Blanks back)
    (hends : EndsName rest) :
    ∃ written, readIdentifier (Text.trimAsciiStart (front ++ (text ++ (back ++ rest)))) =
        (written, back ++ rest) ∧
      written.isEmpty = false ∧ String.ofList (Text.asciiLower written) = name := by
  obtain ⟨written, hlower, hspells⟩ := hname
  have hwritten : written ≠ [] := by
    rintro rfl
    exact hne hlower.symm
  refine ⟨written, ?_, by simpa using hwritten, hlower⟩
  have hread := readIdentifier_of_spellsName hspells (hback.endsName_append hends)
  obtain ⟨c, more, rfl, hfirst⟩ := hspells.exists_cons hwritten
  have hblank : Text.isAsciiBlank c = false := by
    rw [Bool.eq_false_iff]
    intro hblank
    obtain ⟨hpart, hslash⟩ := isNamePart_of_isAsciiBlank hblank
    rw [hpart] at hfirst
    exact hfirst.elim nofun hslash
  rw [trimAsciiStart_append hfront, List.cons_append, trimAsciiStart_cons hblank, ← List.cons_append,
    hread]

/-- A spelled test reads as the test, whatever follows its closing bracket. -/
theorem readInside_of_spells (opening : List Char) {test : AttributeTest} {text : List Char}
    (htest : SpellsTest test.name test.value text) (hne : test.name ≠ "") (rest : List Char) :
    readInside opening (text.tail ++ rest) = .ok (test, rest) := by
  obtain ⟨name, value⟩ := test
  cases htest with
  | @present front text back hfront hname hback =>
      have hends : EndsName (']' :: rest) := endsName_cons (by decide) (by decide)
      obtain ⟨written, hread, hempty, hlower⟩ := readIdentifier_of_blanks hfront hname hne hback hends
      simp only [List.tail_cons, List.append_assoc, List.singleton_append]
      simp only [readInside, hread, hempty, hlower, trimAsciiStart_append hback,
        trimAsciiStart_cons (c := ']') (by decide)]
      rfl
  | @compared comparison value front text back gap written behind hfront hname hback hgap hvalue
      hbehind =>
      obtain ⟨mark, marks, hmark, hpart, hslash, hbracket, hblank⟩ := comparison.render_eq_cons
      have hcompare :=
        comparison.read?_render (gap ++ (written ++ (behind ++ ']' :: rest)))
      have hends : EndsName (mark :: (marks ++ (gap ++ (written ++ (behind ++ ']' :: rest))))) :=
        endsName_cons hpart hslash
      obtain ⟨read, hread, hempty, hlower⟩ := readIdentifier_of_blanks hfront hname hne hback hends
      have hbracketEnds : EndsName (']' :: rest) := endsName_cons (by decide) (by decide)
      have hread' := readValue_of_spells opening hvalue (hbehind.endsName_append hbracketEnds)
      have htrim : Text.trimAsciiStart (written ++ (behind ++ ']' :: rest)) =
          written ++ (behind ++ ']' :: rest) := by
        obtain ⟨c, more, rfl, hc⟩ := hvalue.exists_cons
        exact trimAsciiStart_cons hc _
      rw [hmark, List.cons_append] at hcompare
      simp only [hmark, List.tail_cons, List.append_assoc, List.cons_append, List.nil_append]
      simp only [readInside, hread, hempty, hlower, trimAsciiStart_append hback,
        trimAsciiStart_cons hblank]
      rw [if_neg Bool.false_ne_true]
      split
      · rename_i hnil
        cases hnil
      · rename_i hcons
        cases hcons
        exact absurd rfl hbracket
      · simp only [hcompare, trimAsciiStart_append hgap, htrim, hread', close_of_blanks opening hbehind]

end AttributeTest

end FlatTree.Selector
