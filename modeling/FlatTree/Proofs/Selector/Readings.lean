import FlatTree.Selector.Parser

/-!
# Sequences of readings

A reader that repeats a smaller one is a first reading and the readings behind it, in sequence.  So what the
first reading and the others take is taken by the whole.
-/

namespace FlatTree.Selector

/-- What holds of a text as soon as it holds of all that can be left of it when a reader has taken something
holds of every text. -/
@[elab_as_elim]
theorem Follows.induction {motive : List Char → Prop} (text : List Char)
    (step : ∀ text, (∀ rest, Follows rest text → motive rest) → motive text) : motive text := by
  induction hlength : text.length using Nat.strongRecOn generalizing text with
  | ind length ih => exact step text fun rest hrest => ih _ (hlength ▸ hrest.length_lt) rest rfl

theorem Reader.many_cons_eq {α : Type} (item : Reader α) (starts : Char → Bool) (c : Char)
    (more : List Char) :
    item.many starts (c :: more) =
      if starts c then
        (item.read (c :: more)).bind fun first =>
          (item.many starts first.2).map fun others => (first.1 :: others.1, others.2)
      else
        .ok ([], c :: more) := by
  rw [many]
  split
  · split
    · rename_i hfirst
      rw [hfirst]
      rfl
    · rename_i first behind hfirst
      rw [hfirst]
      change _ = (item.many starts behind).map fun others => (first :: others.1, others.2)
      cases item.many starts behind with
      | error fault => rfl
      | ok others => rfl
  · rfl

theorem Reader.many_cons {α : Type} {item : Reader α} {starts : Char → Bool}
    {text behind rest : List Char} {value : α} {values : List α}
    (hstarts : ∃ c more, text = c :: more ∧ starts c = true)
    (hitem : item.read text = .ok (value, behind))
    (hmany : item.many starts behind = .ok (values, rest)) :
    item.many starts text = .ok (value :: values, rest) := by
  obtain ⟨c, more, rfl, hc⟩ := hstarts
  rw [many_cons_eq, if_pos hc, hitem]
  simp only [Except.bind, hmany, Except.map]

theorem readChain_eq (compound : Reader Compound) (text : List Char) :
    readChain compound text =
      (compound.read text).bind fun first =>
        (readCombinator first.2).bind fun joined =>
          match joined.1 with
          | none => .ok (.last first.1, joined.2)
          | some combinator =>
            (readChain compound joined.2).map fun others =>
              (.link first.1 combinator others.1, others.2) := by
  rw [readChain]
  split
  · rename_i hfirst
    rw [hfirst]
    rfl
  · rename_i first behind hfirst
    rw [hfirst]
    change _ = (readCombinator behind).bind _
    split
    · rename_i hjoined
      rw [hjoined]
      rfl
    · rename_i hjoined
      rw [hjoined]
      rfl
    · rename_i combinator next hjoined
      rw [hjoined]
      change _ = (readChain compound next).map fun others =>
        (Chain.link first combinator others.1, others.2)
      cases readChain compound next with
      | error fault => rfl
      | ok others => rfl

theorem readChain_last {compound : Reader Compound} {text behind rest : List Char} {first : Compound}
    (hfirst : compound.read text = .ok (first, behind))
    (hjoined : readCombinator behind = .ok (none, rest)) :
    readChain compound text = .ok (.last first, rest) := by
  rw [readChain_eq, hfirst]
  simp only [Except.bind, hjoined]

theorem readChain_link {compound : Reader Compound} {text behind next rest : List Char}
    {first : Compound} {combinator : Combinator} {others : Complex}
    (hfirst : compound.read text = .ok (first, behind))
    (hjoined : readCombinator behind = .ok (some combinator, next))
    (hothers : readChain compound next = .ok (others, rest)) :
    readChain compound text = .ok (.link first combinator others, rest) := by
  rw [readChain_eq, hfirst]
  simp only [Except.bind, hjoined, hothers, Except.map]

theorem readAlternatives_eq (chain : Reader Complex) (text : List Char) :
    readAlternatives chain text =
      (chain.read (Text.trimAsciiStart text)).bind fun first =>
        match Text.trimAsciiStart first.2 with
        | ',' :: next =>
          (readAlternatives chain next).map fun others => (first.1 :: others.1, others.2)
        | rest => .ok ([first.1], rest) := by
  rw [readAlternatives]
  split
  · rename_i hfirst
    rw [hfirst]
    rfl
  · rename_i first behind hfirst
    rw [hfirst]
    change _ = match Text.trimAsciiStart behind with
      | ',' :: next => (readAlternatives chain next).map _
      | rest => _
    split
    · rename_i next hcomma
      rw [hcomma]
      change _ = (readAlternatives chain next).map fun others => (first :: others.1, others.2)
      cases readAlternatives chain next with
      | error fault => rfl
      | ok others => rfl
    · rename_i hnone
      split
      · rename_i next hcomma
        exact absurd hcomma (hnone next)
      · rfl

theorem readAlternatives_last {chain : Reader Complex} {text behind : List Char} {first : Complex}
    (hfirst : chain.read (Text.trimAsciiStart text) = .ok (first, behind))
    (hlast : ∀ next, Text.trimAsciiStart behind ≠ ',' :: next) :
    readAlternatives chain text = .ok ([first], Text.trimAsciiStart behind) := by
  rw [readAlternatives_eq, hfirst, Except.bind]
  split
  · rename_i next hcomma
    exact absurd hcomma (hlast next)
  · rfl

theorem readAlternatives_cons {chain : Reader Complex} {text behind next rest : List Char}
    {first : Complex} {others : SelectorList}
    (hfirst : chain.read (Text.trimAsciiStart text) = .ok (first, behind))
    (hcomma : Text.trimAsciiStart behind = ',' :: next)
    (hothers : readAlternatives chain next = .ok (others, rest)) :
    readAlternatives chain text = .ok (first :: others, rest) := by
  rw [readAlternatives_eq, hfirst]
  simp only [Except.bind, hcomma, hothers, Except.map]

end FlatTree.Selector
