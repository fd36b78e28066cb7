import FlatTree.Proofs.Selector.SpelledLists

/-!
# Names and arguments inside longer texts

A name is read in the same way when the text goes on with a comma or a closing parenthesis, unless it ends in
a backslash that would escape the character behind it; so are the values, attributes and positions that a
selector asks for.  What a reader leaves behind does not end in such a backslash either.
-/

namespace FlatTree.Selector

/-! ## Texts that end in an escape -/

/-- The text ends in a backslash that opens an escape: one that is not itself escaped by the character
before it. -/
def endsInEscape : List Char → Bool
  | [] => false
  | ['\\'] => true
  | '\\' :: _ :: rest => endsInEscape rest
  | _ :: rest => endsInEscape rest

@[simp]
theorem endsInEscape_escaped (c : Char) (rest : List Char) :
    endsInEscape ('\\' :: c :: rest) = endsInEscape rest := by
  rw [endsInEscape]

theorem endsInEscape_cons {c : Char} (hslash : c ≠ '\\') (rest : List Char) :
    endsInEscape (c :: rest) = endsInEscape rest := by
  rw [endsInEscape]
  · rintro rfl
    contradiction
  · rintro _ _ rfl
    contradiction

/-- What a character that is no backslash has before it does not matter. -/
theorem endsInEscape_append_cons {c : Char} (hslash : c ≠ '\\') (front rest : List Char) :
    endsInEscape (front ++ c :: rest) = endsInEscape rest := by
  fun_induction endsInEscape front with
  | case1 => exact endsInEscape_cons hslash rest
  | case2 => exact endsInEscape_escaped c rest
  | case3 _ _ ih => exact (endsInEscape_escaped _ _).trans ih
  | case4 first front hlone hpair ih =>
      have hfirst : first ≠ '\\' := by
        rintro rfl
        cases front with
        | nil => exact hlone rfl rfl
        | cons second front => exact hpair second front rfl rfl
      exact (endsInEscape_cons hfirst _).trans ih

theorem endsInEscape_append {front : List Char} (hslash : '\\' ∉ front) (rest : List Char) :
    endsInEscape (front ++ rest) = endsInEscape rest := by
  induction front with
  | nil => rfl
  | cons c front ih =>
      rw [List.mem_cons, not_or] at hslash
      rw [List.cons_append, endsInEscape_cons (Ne.symm hslash.1), ih hslash.2]

theorem endsInEscape_dropWhile {p : Char → Bool} (hslash : p '\\' = false) (text : List Char) :
    endsInEscape (text.dropWhile p) = endsInEscape text := by
  have hfront : '\\' ∉ text.takeWhile p := by
    intro hmem
    rw [List.mem_takeWhile_imp hmem] at hslash
    cases hslash
  rw [← endsInEscape_append hfront, List.takeWhile_append_dropWhile]

@[simp]
theorem endsInEscape_trimAsciiStart (text : List Char) :
    endsInEscape (Text.trimAsciiStart text) = endsInEscape text :=
  endsInEscape_dropWhile (by decide) text

/-! ## Runs of characters -/

section Runs

variable {p : Char → Bool} {more : List Char} (hends : ∀ c ∈ more.head?, p c = false)

include hends

theorem takeWhile_append_of_ends (text : List Char) :
    (text ++ more).takeWhile p = text.takeWhile p := by
  induction text with
  | nil =>
      cases more with
      | nil => rfl
      | cons c more => exact List.takeWhile_cons_of_neg (Bool.eq_false_iff.mp (hends c rfl))
  | cons c text ih =>
      rw [List.cons_append, List.takeWhile_cons, List.takeWhile_cons, ih]

theorem dropWhile_append_of_ends (text : List Char) :
    (text ++ more).dropWhile p = text.dropWhile p ++ more := by
  induction text with
  | nil =>
      cases more with
      | nil => rfl
      | cons c more => exact List.dropWhile_cons_of_neg (Bool.eq_false_iff.mp (hends c rfl))
  | cons c text ih =>
      rw [List.cons_append, List.dropWhile_cons, List.dropWhile_cons, ih]
      split <;> rfl

end Runs

/-! ## Names -/

theorem isPrefix_codeDigits (text : List Char) : codeDigits text <+: text :=
  (List.takeWhile_prefix _).trans (List.take_prefix 6 text)

theorem not_mem_codeDigits (text : List Char) : '\\' ∉ codeDigits text := by
  intro hmem
  exact absurd (List.mem_takeWhile_imp hmem) (by decide)

/-- What an escape leaves ends as the text does that the escape stands in. -/
theorem endsInEscape_readEscape (c : Char) (rest : List Char) :
    endsInEscape (readEscape (c :: rest)).2 = endsInEscape ('\\' :: c :: rest) := by
  rw [endsInEscape_escaped]
  obtain ⟨behind, hbehind⟩ := isPrefix_codeDigits (c :: rest)
  have hslash := not_mem_codeDigits (c :: rest)
  simp only [readEscape]
  split
  · rfl
  · rename_i hne
    have hblank : endsInEscape (dropOneBlank behind) = endsInEscape behind := by
      cases behind with
      | nil => rfl
      | cons d behind =>
          rw [dropOneBlank]
          split
          · rename_i hd
            exact (endsInEscape_cons (isNamePart_of_isAsciiBlank hd).2 behind).symm
          · rfl
    have hdrop : (c :: rest).drop (codeDigits (c :: rest)).length = behind := by
      nth_rewrite 2 [← hbehind]
      exact List.drop_left
    rw [hdrop, hblank]
    cases hdigits : codeDigits (c :: rest) with
    | nil => exact absurd hdigits hne
    | cons digit digits =>
        rw [hdigits] at hbehind hslash
        rw [List.cons_append] at hbehind
        rw [← (List.cons.inj hbehind).2,
          endsInEscape_append (fun hmem => hslash (List.mem_cons_of_mem digit hmem))]

theorem endsInEscape_readIdentifier {text : List Char} (hclosed : endsInEscape text = false) :
    endsInEscape (readIdentifier text).2 = false := by
  fun_induction readIdentifier text with
  | case1 => rfl
  | case2 rest name ih =>
      apply ih
      cases rest with
      | nil => cases hclosed
      | cons c rest => rw [endsInEscape_readEscape, hclosed]
  | case3 c rest hslash _ name ih =>
      apply ih
      rwa [endsInEscape_cons hslash] at hclosed
  | case4 => exact hclosed

theorem endsInEscape_of_readString {quote : Char} (hquote : quote ≠ '\\') {text value rest : List Char}
    (hread : readString quote text = some (value, rest)) : endsInEscape rest = endsInEscape text := by
  fun_induction readString quote text generalizing value rest with
  | case1 => cases hread
  | case2 rest' =>
      cases hread
      exact (endsInEscape_cons hquote rest').symm
  | case3 => cases hread
  | case4 _ behind ih => rw [ih hread, endsInEscape_escaped]
  | case5 next behind =>
      rename_i ih
      obtain ⟨found, hfound, heq⟩ := Option.map_eq_some_iff.mp hread
      cases heq
      rw [ih hfound, endsInEscape_readEscape]
  | case6 c rest' _ hslash ih =>
      obtain ⟨found, hfound, heq⟩ := Option.map_eq_some_iff.mp hread
      cases heq
      rw [ih hfound, endsInEscape_cons hslash]

section Names

variable {more : List Char} (hends : EndsChain more)

include hends

theorem EndsChain.not_isAsciiBlank : ∀ c ∈ more.head?, Text.isAsciiBlank c = false := by
  intro c hc
  rcases hends c hc with rfl | rfl
  all_goals decide

theorem EndsChain.trimAsciiStart_append (text : List Char) :
    Text.trimAsciiStart (text ++ more) = Text.trimAsciiStart text ++ more :=
  dropWhile_append_of_ends hends.not_isAsciiBlank text

theorem EndsChain.endsName : EndsName more :=
  hends.endsCompound.endsSimple.endsName

theorem EndsChain.codeDigits_append (text : List Char) :
    codeDigits (text ++ more) = codeDigits text := by
  rw [codeDigits, List.take_append, codeDigits]
  apply takeWhile_append_of_ends
  intro c hc
  have hhead : c ∈ more.head? := by
    cases hcount : 6 - text.length with
    | zero =>
        rw [hcount] at hc
        cases hc
    | succ count => rwa [hcount, List.head?_take, if_neg (Nat.succ_ne_zero count)] at hc
  rw [hexValue_eq_none (hends.endsName c hhead).1]
  rfl

theorem EndsChain.dropOneBlank_append (text : List Char) :
    dropOneBlank (text ++ more) = dropOneBlank text ++ more := by
  cases text with
  | nil =>
      cases more with
      | nil => rfl
      | cons c more =>
          change dropOneBlank (c :: more) = c :: more
          rw [dropOneBlank, if_neg (Bool.eq_false_iff.mp (hends.not_isAsciiBlank c rfl))]
  | cons c text =>
      simp only [List.cons_append, dropOneBlank]
      split <;> rfl

theorem EndsChain.readEscape_append (c : Char) (text : List Char) :
    readEscape (c :: text ++ more) = ((readEscape (c :: text)).1, (readEscape (c :: text)).2 ++ more) := by
  have hdigits := hends.codeDigits_append (c :: text)
  simp only [List.cons_append] at hdigits
  simp only [List.cons_append, readEscape, hdigits]
  split
  · rfl
  · rw [← List.cons_append, List.drop_append_of_le_length (isPrefix_codeDigits (c :: text)).length_le,
      hends.dropOneBlank_append]

theorem EndsChain.readIdentifier_append {text : List Char} (hclosed : endsInEscape text = false) :
    readIdentifier (text ++ more) = ((readIdentifier text).1, (readIdentifier text).2 ++ more) := by
  fun_induction readIdentifier text with
  | case1 => exact readIdentifier_of_endsName hends.endsName
  | case2 rest name ih =>
      cases rest with
      | nil => cases hclosed
      | cons c rest =>
          rw [endsInEscape_readEscape] at ih
          rw [List.cons_append, readIdentifier, if_pos rfl, hends.readEscape_append, ih hclosed]
  | case3 c rest hslash hpart name ih =>
      rw [endsInEscape_cons hslash] at hclosed
      rw [List.cons_append, readIdentifier, if_neg hslash, if_pos hpart, ih hclosed]
  | case4 c rest hslash hpart => rw [List.cons_append, readIdentifier, if_neg hslash, if_neg hpart]

theorem EndsChain.expectIdentifier_append {text name rest : List Char}
    (hclosed : endsInEscape text = false) (hread : expectIdentifier text = .ok (name, rest)) :
    expectIdentifier (text ++ more) = .ok (name, rest ++ more) ∧ endsInEscape rest = false := by
  cases text with
  | nil => cases hread
  | cons c text =>
      have happend := hends.readIdentifier_append hclosed
      have hrest := endsInEscape_readIdentifier hclosed
      rw [expectIdentifier] at hread
      rw [List.cons_append] at happend ⊢
      rw [expectIdentifier, happend]
      split at hread
      · rename_i hstart
        rw [if_pos hstart]
        rw [Except.ok.inj hread] at hrest ⊢
        exact ⟨rfl, hrest⟩
      · cases hread

theorem EndsChain.readString_append {quote : Char} {text value rest : List Char}
    (hread : readString quote text = some (value, rest)) :
    readString quote (text ++ more) = some (value, rest ++ more) := by
  fun_induction readString quote text generalizing value rest with
  | case1 => cases hread
  | case2 rest' =>
      cases hread
      rw [List.cons_append, readString.eq_def]
      exact if_pos rfl
  | case3 => cases hread
  | case4 behind hquote ih =>
      rw [List.cons_append, List.cons_append, readString, if_neg hquote, if_pos rfl]
      exact ih hread
  | case5 next behind hline _ hquote =>
      rename_i ih
      obtain ⟨found, hfound, heq⟩ := Option.map_eq_some_iff.mp hread
      cases heq
      have hescape := hends.readEscape_append next behind
      have hrest := ih hfound
      rw [List.cons_append] at hescape
      rw [List.cons_append, List.cons_append, readString, if_neg hquote, if_pos rfl]
      simp only [hline, if_false, hescape]
      rw [hrest, Option.map_some]
  | case6 c rest' hquote hslash ih =>
      obtain ⟨found, hfound, heq⟩ := Option.map_eq_some_iff.mp hread
      cases heq
      rw [List.cons_append, readString.eq_def]
      simp only [hquote, hslash, if_false, ih hfound, Option.map_some]

end Names

/-! ## Attributes and positions -/

theorem Comparison.read?_append {text rest : List Char} {comparison : Comparison}
    (hread : Comparison.read? text = some (comparison, rest)) (more : List Char) :
    Comparison.read? (text ++ more) = some (comparison, rest ++ more) ∧
      endsInEscape rest = endsInEscape text := by
  rw [Comparison.read?.eq_def] at hread
  split at hread
  all_goals cases hread
  all_goals exact ⟨rfl, rfl⟩

theorem exists_argument_of_readPosition {text rest : List Char} {nth : Nth}
    (hread : readPosition text = .ok (nth, rest)) :
    ∃ argument, text = '(' :: (argument ++ ')' :: rest) ∧ Nth.read? argument = some nth := by
  rw [readPosition.eq_def] at hread
  split at hread
  · rename_i inside
    dsimp only at hread
    split at hread
    · cases hread
    · rename_i behind hclose
      have hargument : Nth.read? (inside.takeWhile (!isParenthesis ·)) = some nth ∧ behind = rest := by
        rw [Nth.ofChars.eq_def] at hread
        split at hread
        · rename_i hnth
          cases hread
          exact ⟨hnth, rfl⟩
        · cases hread
      obtain ⟨hnth, rfl⟩ := hargument
      refine ⟨inside.takeWhile (!isParenthesis ·), ?_, hnth⟩
      rw [← hclose, List.takeWhile_append_dropWhile]
    · cases hread
  · cases hread

theorem readPosition_append {text rest : List Char} {nth : Nth}
    (hread : readPosition text = .ok (nth, rest)) (more : List Char) :
    readPosition (text ++ more) = .ok (nth, rest ++ more) ∧ endsInEscape rest = endsInEscape text := by
  obtain ⟨argument, rfl, hargument⟩ := exists_argument_of_readPosition hread
  constructor
  · rw [List.cons_append, List.append_assoc, List.cons_append]
    exact readPosition_of_read? hargument _
  · rw [endsInEscape_cons (by decide), endsInEscape_append_cons (by decide)]

section Arguments

variable {more : List Char} (hends : EndsChain more)

include hends

theorem EndsChain.readValue_append {opening other text rest : List Char} {value : String}
    (hclosed : endsInEscape text = false)
    (hread : AttributeTest.readValue opening text = .ok (value, rest)) :
    AttributeTest.readValue other (text ++ more) = .ok (value, rest ++ more) ∧
      endsInEscape rest = false := by
  have hname := hends.readIdentifier_append hclosed
  have hrest := endsInEscape_readIdentifier hclosed
  rw [AttributeTest.readValue.eq_def] at hread
  split at hread
  · cases hread
  · rename_i c text
    rw [List.cons_append] at hname ⊢
    rw [AttributeTest.readValue]
    split at hread
    · rename_i hquote
      rw [if_pos hquote]
      split at hread
      · cases hread
      · rename_i found
        cases hread
        have hslash : c ≠ '\\' := by
          rintro rfl
          exact absurd hquote (by decide)
        rw [endsInEscape_cons hslash] at hclosed
        rw [hends.readString_append found]
        exact ⟨rfl, (endsInEscape_of_readString hslash found).trans hclosed⟩
    · rename_i hquote
      rw [if_neg hquote]
      split at hread
      · rename_i hopens
        cases hread
        rw [if_pos hopens, hname]
        exact ⟨rfl, hrest⟩
      · cases hread

theorem EndsChain.close_append {opening other text rest : List Char}
    (hclosed : endsInEscape text = false) (hread : AttributeTest.close opening text = .ok rest) :
    AttributeTest.close other (text ++ more) = .ok (rest ++ more) ∧ endsInEscape rest = false := by
  rw [AttributeTest.close] at hread
  rw [AttributeTest.close, hends.trimAsciiStart_append]
  rw [← endsInEscape_trimAsciiStart] at hclosed
  split at hread
  · cases hread
  · rename_i behind hbracket
    cases hread
    rw [hbracket] at hclosed ⊢
    exact ⟨rfl, hclosed⟩
  · cases hread

theorem EndsChain.readInside_append {opening other text rest : List Char} {test : AttributeTest}
    (hclosed : endsInEscape text = false)
    (hread : AttributeTest.readInside opening text = .ok (test, rest)) :
    AttributeTest.readInside other (text ++ more) = .ok (test, rest ++ more) ∧
      endsInEscape rest = false := by
  rw [← endsInEscape_trimAsciiStart] at hclosed
  have hname := hends.readIdentifier_append hclosed
  have hbehind := endsInEscape_readIdentifier hclosed
  rw [← endsInEscape_trimAsciiStart] at hbehind
  rw [AttributeTest.readInside] at hread ⊢
  rw [hends.trimAsciiStart_append, hname]
  dsimp only at hread ⊢
  rw [hends.trimAsciiStart_append]
  split at hread
  · cases hread
  · rename_i hne
    rw [if_neg hne]
    split at hread
    · cases hread
    · rename_i hbracket
      cases hread
      rw [hbracket] at hbehind ⊢
      exact ⟨rfl, hbehind⟩
    · split at hread
      · cases hread
      · rename_i hcompare
        split at hread
        · cases hread
        · rename_i hvalue
          split at hread
          · cases hread
          · rename_i hclose
            cases hread
            obtain ⟨hcompare', hsame⟩ := Comparison.read?_append hcompare more
            rw [← hsame, ← endsInEscape_trimAsciiStart] at hbehind
            obtain ⟨hvalue', hbehind⟩ := @EndsChain.readValue_append _ hends _ other _ _ _ hbehind hvalue
            obtain ⟨hclose', hbehind⟩ := @EndsChain.close_append _ hends _ other _ _ hbehind hclose
            refine ⟨?_, hbehind⟩
            split
            · rename_i hempty
              rw [hempty] at hcompare'
              cases hcompare'
            · rename_i hcons
              rw [hcons] at hcompare'
              cases hcompare'
            · simp only [hcompare', hends.trimAsciiStart_append, hvalue', hclose']

end Arguments

end FlatTree.Selector
