import FlatTree.Proofs.Selector.PositionGrammar

/-!
# Reading positions

What the grammar spells holds no parenthesis, so the parenthesis that closes the argument of a position is
found behind it.  The written form of a position is one that the grammar spells, so the numbers read back
over the whole range of 32 bits.
-/

namespace FlatTree.Selector

/-! ## Characters of positions -/

theorem isUpper_eq_false_of_isPositionMark {c : Char} (hmark : isPositionMark c = true) :
    c.isUpper = false := by
  rw [← Bool.not_eq_true, isUpper_iff_toNat]
  simp only [isPositionMark, Bool.or_eq_true, decide_eq_true_eq, isDigit_iff_toNat] at hmark
  rcases hmark with ((hdigit | rfl) | rfl) | rfl
  · omega
  all_goals decide

/-- The characters of a position in lower case. -/
def IsPositionCharacter (c : Char) : Prop :=
  isPositionMark c = true ∨ Text.isAsciiBlank c = true ∨ c ∈ ['o', 'd', 'e', 'v', 'n']

theorem IsPositionCharacter.isUpper_eq_false {c : Char} (hc : IsPositionCharacter c) :
    c.isUpper = false := by
  rcases hc with hmark | hblank | hletter
  · exact isUpper_eq_false_of_isPositionMark hmark
  · rw [Bool.eq_false_iff]
    intro hupper
    rw [isAsciiBlank_eq_false (by decide) hupper] at hblank
    contradiction
  · simp only [List.mem_cons, List.not_mem_nil, or_false] at hletter
    rcases hletter with rfl | rfl | rfl | rfl | rfl
    all_goals decide

theorem not_isPositionCharacter_of_isParenthesis {c : Char} (hparenthesis : isParenthesis c = true) :
    ¬ IsPositionCharacter c ∧ c.toLower = c := by
  simp only [isParenthesis, Bool.or_eq_true, decide_eq_true_eq] at hparenthesis
  unfold IsPositionCharacter
  rcases hparenthesis with rfl | rfl
  all_goals decide

theorem isPositionCharacter_of_spellsTail {offset : Int32} {tail : List Char}
    (hspells : SpellsTail offset tail) : ∀ c ∈ tail, IsPositionCharacter c := by
  cases hspells with
  | omitted => nofun
  | signed hfront hsign hgap hdigits =>
      simp only [List.forall_mem_append, List.forall_mem_cons]
      exact ⟨fun c hc => .inr (.inl (hfront c hc)), .inl hsign.isPositionMark.1,
        fun c hc => .inr (.inl (hgap c hc)),
        fun c hc => .inl (isPositionMark_of_isDigit (hdigits.isDigit c hc)).1⟩

theorem isPositionCharacter_of_spellsPosition {nth : Nth} {text : List Char}
    (hspells : SpellsPosition nth text) : ∀ c ∈ text, IsPositionCharacter c := by
  cases hspells with
  | odd =>
      have hletters : ['o', 'd', 'd'] ⊆ ['o', 'd', 'e', 'v', 'n'] := by decide
      exact fun c hc => .inr (.inr (hletters hc))
  | even =>
      have hletters : ['e', 'v', 'e', 'n'] ⊆ ['o', 'd', 'e', 'v', 'n'] := by decide
      exact fun c hc => .inr (.inr (hletters hc))
  | offset hoffset => exact fun c hc => .inl (isPositionMark_of_spellsInteger hoffset c hc).1
  | steps hstep htail =>
      rw [List.forall_mem_append, List.forall_mem_cons]
      exact ⟨fun c hc => .inl (isPositionMark_of_spellsStep hstep c hc).1, .inl (by decide),
        isPositionCharacter_of_spellsTail htail⟩

/-! ## Arguments -/

theorem Nth.SpelledBy.isParenthesis_eq_false {nth : Nth} {argument : List Char}
    (hspelled : nth.SpelledBy argument) : ∀ c ∈ argument, isParenthesis c = false := by
  obtain ⟨front, middle, back, rfl, hfront, hspells, hback⟩ := hspelled
  intro c hc
  rw [Bool.eq_false_iff]
  intro hparenthesis
  obtain ⟨hnot, hlower⟩ := not_isPositionCharacter_of_isParenthesis hparenthesis
  apply hnot
  rw [List.mem_append, List.mem_append] at hc
  rcases hc with (hc | hc) | hc
  · exact .inr (.inl (hfront c hc))
  · apply isPositionCharacter_of_spellsPosition hspells
    rw [Text.asciiLower, ← hlower]
    exact List.mem_map_of_mem hc
  · exact .inr (.inl (hback c hc))

theorem readPosition_of_read? {argument : List Char} {nth : Nth} (hread : Nth.read? argument = some nth)
    (rest : List Char) : readPosition ('(' :: (argument ++ ')' :: rest)) = .ok (nth, rest) := by
  have hall : ∀ c ∈ argument, (!isParenthesis c) = true := by
    intro c hc
    rw [(Nth.read?_eq_some_iff.mp hread).isParenthesis_eq_false c hc, Bool.not_false]
  have htake : (argument ++ ')' :: rest).takeWhile (!isParenthesis ·) = argument := by
    rw [List.takeWhile_append_of_pos hall, List.takeWhile_cons_of_neg (by decide), List.append_nil]
  have hdrop : (argument ++ ')' :: rest).dropWhile (!isParenthesis ·) = ')' :: rest := by
    rw [List.dropWhile_append_of_pos hall, List.dropWhile_cons_of_neg (by decide)]
  simp only [readPosition, htake, hdrop, Nth.ofChars, hread]
  rfl

/-! ## Written forms -/

theorem spellsInteger_integer (value : Int) : SpellsInteger value (Text.integer value) :=
  readInteger?_eq_some_iff.mp (Text.readInteger?_integer value)

theorem spellsTail_signedInteger (offset : Int32) :
    SpellsTail offset (Text.signedInteger offset.toInt) := by
  have hspells := readInteger?_eq_some_iff.mp (Text.readInteger?_signedInteger offset.toInt)
  obtain ⟨factor, hsign⟩ : ∃ factor, SpellsSign factor (if offset.toInt < 0 then '-' else '+') := by
    split
    · exact ⟨_, .minus⟩
    · exact ⟨_, .plus⟩
  obtain ⟨hdigits, hoffset⟩ := hsign.spellsInteger_iff.mp hspells
  exact .signed blanks_nil hsign blanks_nil hdigits hoffset

theorem spellsPosition_render (nth : Nth) : SpellsPosition nth nth.render := by
  obtain ⟨step, offset⟩ := nth
  rw [Nth.render]
  split
  · rename_i hstep
    obtain rfl : step = 0 := hstep
    exact .offset (spellsInteger_integer offset.toInt)
  · have hstep : SpellsStep step (Text.integer step.toInt) :=
      .number (spellsInteger_integer step.toInt)
    split
    · rename_i hoffset
      exact .steps hstep (.omitted hoffset)
    · exact .steps hstep (spellsTail_signedInteger offset)

theorem Nth.read?_render (nth : Nth) : read? nth.render = some nth := by
  have hspells := spellsPosition_render nth
  have hlower : Text.asciiLower nth.render = nth.render := by
    apply Text.asciiLower_of_not_isUpper
    exact fun c hc => (isPositionCharacter_of_spellsPosition hspells c hc).isUpper_eq_false
  refine read?_eq_some_iff.mpr ⟨[], nth.render, [], ?_, blanks_nil, ?_, blanks_nil⟩
  · rw [List.nil_append, List.append_nil]
  · rwa [hlower]

end FlatTree.Selector
