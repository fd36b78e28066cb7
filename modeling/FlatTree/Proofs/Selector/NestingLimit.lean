import FlatTree.Proofs.Selector.Readings

/-!
# What the nesting limit decides

With fewer levels a reader either reads just what it reads with more of them, or it rejects the text as
nested too deeply.  The list reader of the last level rejects everything, and each layer of the grammar
hands on what the layer below it says, whatever it says.
-/

namespace FlatTree.Selector

/-- The same result, unless the first one is that the limit is exceeded. -/
def SameUnlessDeep {place α : Type} (limit : Nat) (narrow wide : Except (Fault place) α) : Prop :=
  narrow = wide ∨ narrow = .error (.tooDeep limit)

section Results

variable {place α β : Type} {limit : Nat} {narrow wide : Except (Fault place) α}

theorem SameUnlessDeep.refl (limit : Nat) (result : Except (Fault place) α) :
    SameUnlessDeep limit result result :=
  Or.inl rfl

/-- Whatever goes on after the same result may itself be the same unless the limit is exceeded. -/
theorem SameUnlessDeep.bind (hsame : SameUnlessDeep limit narrow wide)
    {next other : α → Except (Fault place) β}
    (hnext : ∀ value, wide = .ok value → SameUnlessDeep limit (next value) (other value)) :
    SameUnlessDeep limit (narrow.bind next) (wide.bind other) := by
  rcases hsame with rfl | rfl
  · cases narrow with
    | error fault => exact Or.inl rfl
    | ok value => exact hnext value rfl
  · exact Or.inr rfl

theorem SameUnlessDeep.map (hsame : SameUnlessDeep limit narrow wide) (convert : α → β) :
    SameUnlessDeep limit (narrow.map convert) (wide.map convert) := by
  rcases hsame with rfl | rfl
  · exact Or.inl rfl
  · exact Or.inr rfl

end Results

/-- The reader `narrow` reads what `wide` reads, unless it finds that the limit is exceeded. -/
def Reader.Narrows {α : Type} (limit : Nat) (narrow wide : Reader α) : Prop :=
  ∀ text, SameUnlessDeep limit (narrow.read text) (wide.read text)

/-! ## Simple selectors -/

section Layers

variable {limit : Nat} {narrow wide : Reader SelectorList}
  (hnested : Reader.Narrows limit narrow wide)

include hnested

theorem readExclusion_narrows (text : List Char) :
    SameUnlessDeep limit (readExclusion narrow text) (readExclusion wide text) := by
  rw [readExclusion.eq_def, readExclusion.eq_def]
  split
  · rename_i inside
    rcases hnested inside with hsame | hdeep
    · rw [hsame]
      exact .refl limit _
    · rw [hdeep]
      exact Or.inr rfl
  · exact .refl limit _

theorem readPseudoClass_narrows (text : List Char) :
    SameUnlessDeep limit (readPseudoClass narrow text) (readPseudoClass wide text) := by
  rw [readPseudoClass, readPseudoClass]
  split
  · exact .refl limit _
  · dsimp only
    split
    · exact .refl limit _
    · exact (readExclusion_narrows hnested _).map _
    · exact .refl limit _
    · exact .refl limit _
    · exact .refl limit _

theorem simpleReader_narrows : (simpleReader narrow).Narrows limit (simpleReader wide) := by
  intro text
  change SameUnlessDeep limit (readSimple narrow text) (readSimple wide text)
  rw [readSimple.eq_def, readSimple.eq_def]
  split
  · exact .refl limit _
  · exact .refl limit _
  · exact .refl limit _
  · exact readPseudoClass_narrows hnested _
  · exact .refl limit _

end Layers

/-! ## Sequences of readings -/

theorem Reader.many_narrows {α : Type} {limit : Nat} {narrow wide : Reader α}
    (hitem : narrow.Narrows limit wide) (starts : Char → Bool) (text : List Char) :
    SameUnlessDeep limit (narrow.many starts text) (wide.many starts text) := by
  induction text using Follows.induction with
  | step text ih =>
      cases text with
      | nil =>
          rw [many, many]
          exact .refl limit _
      | cons c more =>
          rw [many_cons_eq, many_cons_eq]
          split
          · apply (hitem (c :: more)).bind
            intro first hfirst
            apply SameUnlessDeep.map
            exact ih first.2 (wide.follows hfirst)
          · exact .refl limit _

theorem chainReader_narrows {limit : Nat} {narrow wide : Reader Compound}
    (hcompound : narrow.Narrows limit wide) :
    (chainReader narrow).Narrows limit (chainReader wide) := by
  intro text
  change SameUnlessDeep limit (readChain narrow text) (readChain wide text)
  induction text using Follows.induction with
  | step text ih =>
      rw [readChain_eq, readChain_eq]
      apply (hcompound text).bind
      intro first hfirst
      apply (SameUnlessDeep.refl limit _).bind
      intro joined hjoined
      split
      · exact .refl limit _
      · apply SameUnlessDeep.map
        have hfollows := (wide.follows hfirst).of_suffix (readCombinator_suffix hjoined)
        exact ih joined.2 hfollows

theorem alternativesReader_narrows {limit : Nat} {narrow wide : Reader Complex}
    (hchain : narrow.Narrows limit wide) :
    (alternativesReader narrow).Narrows limit (alternativesReader wide) := by
  intro text
  change SameUnlessDeep limit (readAlternatives narrow text) (readAlternatives wide text)
  induction text using Follows.induction with
  | step text ih =>
      rw [readAlternatives_eq, readAlternatives_eq]
      apply (hchain (Text.trimAsciiStart text)).bind
      intro first hfirst
      split
      · rename_i next hcomma
        apply SameUnlessDeep.map
        have hsuffix := hcomma ▸ trimAsciiStart_suffix first.2
        have hfollows := ((wide.follows hfirst).of_follows (trimAsciiStart_suffix text)).of_suffix
          ((List.suffix_cons ',' next).trans hsuffix)
        exact ih next hfollows
      · exact .refl limit _

/-! ## Lists -/

theorem compoundReader_narrows {limit : Nat} {narrow wide : Reader SelectorList}
    (hnested : narrow.Narrows limit wide) :
    (compoundReader narrow).Narrows limit (compoundReader wide) := by
  have hothers := Reader.many_narrows (simpleReader_narrows hnested) opensSimple
  have hsimples (text : List Char) :
      SameUnlessDeep limit (readSimples narrow text) (readSimples wide text) := by
    rw [readSimples.eq_def, readSimples.eq_def]
    dsimp only
    split
    · exact .refl limit _
    · split
      · exact (hothers _).map _
      · split
        · exact (hothers _).map _
        · exact hothers _
  intro text
  change SameUnlessDeep limit (readCompound narrow text) (readCompound wide text)
  rw [readCompound, readCompound]
  rcases hsimples text with hsame | hdeep
  · rw [hsame]
    exact .refl limit _
  · rw [hdeep]
    exact Or.inr rfl

/-- A list reader on fewer levels reads the same lists, unless it rejects a text for its limit. -/
theorem listReader_narrows (limit other : Nat) {levels more : Nat} (hle : levels ≤ more) :
    (listReader limit levels).Narrows limit (listReader other more) := by
  induction levels generalizing more with
  | zero => exact fun text => Or.inr rfl
  | succ levels ih =>
      obtain ⟨more, rfl⟩ := Nat.exists_eq_add_one_of_ne_zero (Nat.ne_of_gt (Nat.lt_of_lt_of_le
        (Nat.succ_pos levels) hle))
      exact alternativesReader_narrows
        (chainReader_narrows (compoundReader_narrows (ih (Nat.le_of_succ_le_succ hle))))

namespace SelectorList

theorem ofChars_sameUnlessDeep {limit other : Nat} (hle : limit ≤ other) (text : List Char) :
    SameUnlessDeep limit (ofChars limit text) (ofChars other text) := by
  rw [ofChars, ofChars]
  split
  · exact .refl limit _
  · rcases listReader_narrows limit other (Nat.succ_le_succ hle) text with hsame | hdeep
    · rw [hsame]
      exact .refl limit _
    · rw [hdeep]
      exact Or.inr rfl

/-- Of two limits the lower one gives the same parse, or rejects the text as nested too deeply. -/
theorem parseWithin_sameUnlessDeep {limit other : Nat} (hle : limit ≤ other) (text : String) :
    SameUnlessDeep (min limit greatestLimit) (parseWithin limit text) (parseWithin other text) := by
  have hlimits : min limit greatestLimit ≤ min other greatestLimit :=
    Nat.le_min.mpr ⟨Nat.le_trans (Nat.min_le_left _ _) hle, Nat.min_le_right _ _⟩
  rw [parseWithin, parseWithin]
  rcases ofChars_sameUnlessDeep hlimits text.toList with hsame | hdeep
  · rw [hsame]
    exact .refl _ _
  · rw [hdeep]
    exact Or.inr rfl

end SelectorList

end FlatTree.Selector
