import FlatTree.Proofs.Selector.SpelledLists

/-!
# What faults say about their places

Whatever layer of the grammar rejects a text, its fault names a place that is there in the text, and what
stands at the place is what the fault says: the character that was not expected, the bracket or the quote
that is not closed, the colon of the unknown name.  While reading, a place is the text that is left there; in
the answer it is an offset in bytes, which lies between two characters.
-/

namespace FlatTree.Selector

/-! ## Accurate faults -/

namespace Fault

variable {place other : Type}

/-- What the fault says is so at the place that it names, where `stands position rest` means that `rest` is
what stands in the text from the position on.  A blank text has no such place. -/
def Accurate (limit : Nat) (stands : place → List Char → Prop) : Fault place → Prop
  | blank => False
  | missingCompound position =>
    ∃ rest, stands position rest ∧ ∀ c ∈ rest.head?, c = '>' ∨ c = '+' ∨ c = '~' ∨ c = ',' ∨ c = ')'
  | unexpected found position => ∃ rest, stands position (found :: rest)
  | unbalanced position => ∃ rest, stands position rest ∧ ∀ c ∈ rest.head?, c = '(' ∨ c = ')'
  | unclosedBracket position => ∃ rest, stands position ('[' :: rest)
  | unclosedString position =>
    ∃ quote rest, stands position (quote :: rest) ∧ (quote = '"' ∨ quote = '\'')
  | unknownPseudoClass name position =>
    PseudoClass.named? name = none ∧
      ∃ text identifier rest, stands position (':' :: text) ∧
        expectIdentifier text = .ok (identifier, rest) ∧ name = String.ofList (Text.asciiLower identifier)
  | invalidNth argument =>
    ∃ position inside, stands position ('(' :: inside) ∧
      argument = Text.trim (inside.takeWhile (!isParenthesis ·))
  | invalidAttribute position => ∃ rest, stands position ('[' :: rest)
  | tooDeep levels => levels = limit

/-- The place that a fault names. -/
def place? : Fault place → Option place
  | missingCompound position | unexpected _ position | unbalanced position | unclosedBracket position
  | unclosedString position | unknownPseudoClass _ position | invalidAttribute position => some position
  | blank | invalidNth _ | tooDeep _ => none

variable {limit : Nat} {stands : place → List Char → Prop} {standsAlso : other → List Char → Prop}
  {fault : Fault place}

theorem Accurate.map {convert : place → other}
    (hstands : ∀ position rest, stands position rest → standsAlso (convert position) rest)
    (haccurate : fault.Accurate limit stands) : (fault.map convert).Accurate limit standsAlso := by
  cases fault with
  | blank | tooDeep levels => exact haccurate
  | missingCompound position | unbalanced position =>
      obtain ⟨rest, hrest, hhead⟩ := haccurate
      exact ⟨rest, hstands position rest hrest, hhead⟩
  | unexpected found position | unclosedBracket position | invalidAttribute position =>
      obtain ⟨rest, hrest⟩ := haccurate
      exact ⟨rest, hstands position _ hrest⟩
  | unclosedString position =>
      obtain ⟨quote, rest, hrest, hquote⟩ := haccurate
      exact ⟨quote, rest, hstands position _ hrest, hquote⟩
  | unknownPseudoClass name position =>
      obtain ⟨hunknown, text, identifier, rest, htext, hname⟩ := haccurate
      exact ⟨hunknown, text, identifier, rest, hstands position _ htext, hname⟩
  | invalidNth argument =>
      obtain ⟨position, inside, hinside, hargument⟩ := haccurate
      exact ⟨convert position, inside, hstands position _ hinside, hargument⟩

theorem map_id (fault : Fault place) : fault.map id = fault := by
  cases fault
  all_goals rfl

theorem Accurate.exists_stands {position : place} (hplace : fault.place? = some position)
    (haccurate : fault.Accurate limit stands) : ∃ rest, stands position rest := by
  cases fault
  all_goals cases hplace
  case missingCompound | unbalanced =>
    obtain ⟨rest, hrest, -⟩ := haccurate
    exact ⟨rest, hrest⟩
  case unexpected | unclosedBracket | invalidAttribute =>
    obtain ⟨rest, hrest⟩ := haccurate
    exact ⟨_, hrest⟩
  case unclosedString =>
    obtain ⟨quote, rest, hrest, -⟩ := haccurate
    exact ⟨_, hrest⟩
  case unknownPseudoClass =>
    obtain ⟨-, text, identifier, rest, htext, -⟩ := haccurate
    exact ⟨_, htext⟩

end Fault

/-! ## Faults while reading -/

/-- While a text is read, a place in it is the end of the text that is left there. -/
def IsLeft (text position rest : List Char) : Prop :=
  position = rest ∧ rest <:+ text

theorem isLeft_refl (text : List Char) : IsLeft text text text :=
  ⟨rfl, List.suffix_rfl⟩

/-- The result is no fault, or one that is accurate about the text. -/
def AccurateIn {α : Type} (limit : Nat) (text : List Char) (result : Except (Fault (List Char)) α) : Prop :=
  ∀ ⦃fault⦄, result = .error fault → fault.Accurate limit (IsLeft text)

namespace AccurateIn

variable {α β : Type} {limit : Nat} {text whole : List Char} {result : Except (Fault (List Char)) α}

theorem ok (value : α) : AccurateIn limit text (.ok value : Except (Fault (List Char)) α) :=
  fun _ hfault => nomatch hfault

theorem error {fault : Fault (List Char)} (haccurate : fault.Accurate limit (IsLeft text)) :
    AccurateIn limit text (.error fault : Except (Fault (List Char)) α) := by
  intro _ hfault
  cases hfault
  exact haccurate

theorem bind (hresult : AccurateIn limit text result) {next : α → Except (Fault (List Char)) β}
    (hnext : ∀ value, result = .ok value → AccurateIn limit text (next value)) :
    AccurateIn limit text (result.bind next) := by
  cases result with
  | error fault => exact error (hresult rfl)
  | ok value => exact hnext value rfl

theorem map (hresult : AccurateIn limit text result) (convert : α → β) :
    AccurateIn limit text (result.map convert) := by
  cases result with
  | error fault => exact error (hresult rfl)
  | ok value => exact ok (convert value)

/-- A fault about the end of a text is one about the text. -/
theorem of_suffix (hresult : AccurateIn limit text result) (hsuffix : text <:+ whole) :
    AccurateIn limit whole result := by
  intro fault hfault
  have hmap : (fault.map id).Accurate limit (IsLeft whole) :=
    (hresult hfault).map fun _ _ hleft => ⟨hleft.1, hleft.2.trans hsuffix⟩
  rwa [fault.map_id] at hmap

end AccurateIn

/-- The faults of the reader are accurate about every text. -/
def Reader.Accurate {α : Type} (limit : Nat) (reader : Reader α) : Prop :=
  ∀ text, AccurateIn limit text (reader.read text)

/-! ## Names and arguments -/

section Arguments

variable (limit : Nat)

theorem accurate_unexpectedAt (text : List Char) : (unexpectedAt text).Accurate limit (IsLeft text) := by
  cases text with
  | nil => exact ⟨[], isLeft_refl [], fun _ hc => nomatch hc⟩
  | cons c rest => exact ⟨rest, isLeft_refl (c :: rest)⟩

theorem accurateIn_expectIdentifier (text : List Char) : AccurateIn limit text (expectIdentifier text) := by
  cases text with
  | nil => exact .error (accurate_unexpectedAt limit [])
  | cons c rest =>
      rw [expectIdentifier]
      split
      · exact .ok _
      · exact .error (accurate_unexpectedAt limit (c :: rest))

theorem accurateIn_readValue {inside text : List Char} (hsuffix : text <:+ '[' :: inside) :
    AccurateIn limit ('[' :: inside) (AttributeTest.readValue ('[' :: inside) text) := by
  rw [AttributeTest.readValue.eq_def]
  split
  · exact .error ⟨inside, isLeft_refl _⟩
  · rename_i c rest
    split
    · rename_i hquote
      rw [Bool.or_eq_true, decide_eq_true_eq, decide_eq_true_eq] at hquote
      split
      -- an unterminated string names its quote, every other failure here the bracket
      · exact .error ⟨c, rest, ⟨rfl, hsuffix⟩, hquote⟩
      · exact .ok _
    · split
      · exact .ok _
      · exact .error ⟨inside, isLeft_refl _⟩

theorem accurateIn_close (inside text : List Char) :
    AccurateIn limit ('[' :: inside) (AttributeTest.close ('[' :: inside) text) := by
  rw [AttributeTest.close]
  split
  · exact .error ⟨inside, isLeft_refl _⟩
  · exact .ok _
  · exact .error ⟨inside, isLeft_refl _⟩

theorem accurateIn_readInside (inside : List Char) :
    AccurateIn limit ('[' :: inside) (AttributeTest.readInside ('[' :: inside) inside) := by
  have hbehind := (trimAsciiStart_suffix _).trans
    ((readIdentifier_suffix _).trans (trimAsciiStart_suffix inside))
  rw [AttributeTest.readInside]
  split
  · exact .error ⟨inside, isLeft_refl _⟩
  · split
    · exact .error ⟨inside, isLeft_refl _⟩
    · exact .ok _
    · split
      · exact .error ⟨inside, isLeft_refl _⟩
      · rename_i hcompare
        have hsuffix := (trimAsciiStart_suffix _).trans ((Comparison.read?_suffix hcompare).trans hbehind)
        have hvalue := accurateIn_readValue limit (hsuffix.trans (List.suffix_cons '[' inside))
        split
        · rename_i hfault
          exact .error (hvalue hfault)
        · rename_i value rest _
          have hclose := accurateIn_close limit inside rest
          split
          · rename_i hfault
            exact .error (hclose hfault)
          · exact .ok _

theorem accurateIn_readPosition (text : List Char) : AccurateIn limit text (readPosition text) := by
  rw [readPosition.eq_def]
  split
  · rename_i inside
    dsimp only
    split
    · refine .error ⟨'(' :: inside, isLeft_refl _, ?_⟩
      intro c hc
      cases hc
      exact .inl rfl
    · apply AccurateIn.map
      rw [Nth.ofChars]
      split
      · exact .ok _
      · exact .error ⟨_, inside, isLeft_refl _, rfl⟩
    · exact .error ⟨_, inside, isLeft_refl _, rfl⟩
  · exact .error (accurate_unexpectedAt limit text)

end Arguments

/-! ## What lists leave -/

theorem endsChain_of_readCombinator {text rest : List Char}
    (hread : readCombinator text = .ok (none, rest)) : EndsChain rest := by
  rw [readCombinator] at hread
  split at hread
  · cases hread
    exact fun _ hc => nomatch hc
  · split at hread
    · rename_i hend
      rw [Bool.or_eq_true, decide_eq_true_eq, decide_eq_true_eq] at hend
      cases hread
      intro _ hc
      cases hc
      exact hend
    · repeat' split at hread
      all_goals cases hread

theorem endsChain_of_readChain {compound : Reader Compound} {text rest : List Char} {chain : Complex}
    (hread : readChain compound text = .ok (chain, rest)) : EndsChain rest := by
  fun_induction readChain compound text generalizing chain rest with
  | case1 => cases hread
  | case2 => cases hread
  | case3 text first behind hfirst rest' hjoined =>
      cases hread
      exact endsChain_of_readCombinator hjoined
  | case4 => cases hread
  | case5 text first behind hfirst combinator next hjoined others rest' hothers ih =>
      cases hread
      exact ih hothers

theorem endsList_of_readAlternatives {compound : Reader Compound} {text rest : List Char}
    {alternatives : SelectorList}
    (hread : readAlternatives (chainReader compound) text = .ok (alternatives, rest)) : EndsList rest := by
  fun_induction readAlternatives (chainReader compound) text generalizing alternatives rest with
  | case1 => cases hread
  | case2 => cases hread
  | case3 text first behind hfirst next hcomma others rest' hothers ih =>
      cases hread
      exact ih hothers
  | case4 text first behind hfirst hnone =>
      cases hread
      -- the list goes on behind a comma, which leaves the parenthesis of what may end a chain
      have hends := endsChain_of_readChain hfirst
      cases behind with
      | nil =>
          intro _ hc
          cases hc
      | cons c behind =>
          rcases hends c rfl with rfl | rfl
          · exact absurd (trimAsciiStart_cons (by decide) behind) (hnone behind)
          · rw [trimAsciiStart_cons (by decide)]
            intro _ hc
            cases hc
            rfl

theorem endsList_of_listReader {limit levels : Nat} {text rest : List Char} {alternatives : SelectorList}
    (hread : (listReader limit levels).read text = .ok (alternatives, rest)) : EndsList rest := by
  cases levels with
  | zero => cases hread
  | succ levels => exact endsList_of_readAlternatives hread

/-! ## Layers of the grammar -/

/-- A reader of lists with accurate faults, which goes on reading up to a parenthesis or the end. -/
structure Reader.AccurateOnLists (limit : Nat) (nested : Reader SelectorList) : Prop where
  accurate : nested.Accurate limit
  endsList : ∀ {text alternatives rest}, nested.read text = .ok (alternatives, rest) → EndsList rest

section Layers

variable {limit : Nat} {nested : Reader SelectorList} (hnested : nested.AccurateOnLists limit)

include hnested

theorem accurateIn_readExclusion (text : List Char) : AccurateIn limit text (readExclusion nested text) := by
  rw [readExclusion.eq_def]
  split
  · rename_i inside
    have hinside := List.suffix_cons '(' inside
    split
    · rename_i hfault
      exact .error ((hnested.accurate inside).of_suffix hinside hfault)
    · exact .ok _
    · rename_i alternatives rest _ hlist
      refine .error ⟨rest, ⟨rfl, (nested.follows hlist).suffix.trans hinside⟩, ?_⟩
      exact fun c hc => .inr (hnested.endsList hlist c hc)
  · exact .error (accurate_unexpectedAt limit text)

theorem accurateIn_readPseudoClass (text : List Char) :
    AccurateIn limit (':' :: text) (readPseudoClass nested text) := by
  have htext := List.suffix_cons ':' text
  rw [readPseudoClass]
  split
  · rename_i hfault
    exact .error ((accurateIn_expectIdentifier limit text).of_suffix htext hfault)
  · rename_i identifier rest hname
    have hrest := (expectIdentifier_follows hname).suffix.trans htext
    dsimp only
    split
    · rename_i hunknown
      exact .error ⟨hunknown, text, identifier, rest, isLeft_refl _, hname, rfl⟩
    · exact ((accurateIn_readExclusion hnested rest).map _).of_suffix hrest
    · exact ((accurateIn_readPosition limit rest).map _).of_suffix hrest
    · exact ((accurateIn_readPosition limit rest).map _).of_suffix hrest
    · split
      · exact (AccurateIn.error (accurate_unexpectedAt limit _)).of_suffix hrest
      · exact .ok _

theorem accurate_simpleReader : (simpleReader nested).Accurate limit := by
  intro text
  change AccurateIn limit text (readSimple nested text)
  rw [readSimple.eq_def]
  split
  · exact ((accurateIn_expectIdentifier limit _).map _).of_suffix (List.suffix_cons _ _)
  · exact ((accurateIn_expectIdentifier limit _).map _).of_suffix (List.suffix_cons _ _)
  · exact (accurateIn_readInside limit _).map _
  · exact accurateIn_readPseudoClass hnested _
  · exact .error (accurate_unexpectedAt limit text)

end Layers

theorem Reader.Accurate.many {α : Type} {limit : Nat} {item : Reader α} (hitem : item.Accurate limit)
    (starts : Char → Bool) (text : List Char) : AccurateIn limit text (item.many starts text) := by
  induction text using Follows.induction with
  | step text ih =>
      cases text with
      | nil =>
          rw [Reader.many]
          exact .ok _
      | cons c more =>
          rw [Reader.many_cons_eq]
          split
          · apply (hitem (c :: more)).bind
            intro first hfirst
            have hfollows := item.follows hfirst
            exact ((ih first.2 hfollows).map _).of_suffix hfollows.suffix
          · exact .ok _

theorem accurate_noCompound (limit : Nat) (text : List Char) :
    (noCompound text).Accurate limit (IsLeft text) := by
  cases text with
  | nil => exact ⟨[], isLeft_refl [], fun _ hc => nomatch hc⟩
  | cons c rest =>
      rw [noCompound]
      split
      · rename_i hmark
        simp only [Bool.or_eq_true, decide_eq_true_eq, or_assoc] at hmark
        refine ⟨c :: rest, isLeft_refl _, ?_⟩
        intro _ hc
        cases hc
        exact hmark
      · exact ⟨rest, isLeft_refl (c :: rest)⟩

theorem accurate_compoundReader {limit : Nat} {nested : Reader SelectorList}
    (hnested : nested.AccurateOnLists limit) : (compoundReader nested).Accurate limit := by
  have hothers := (accurate_simpleReader hnested).many opensSimple
  have hsimples (text : List Char) : AccurateIn limit text (readSimples nested text) := by
    rw [readSimples.eq_def]
    dsimp only
    split
    · exact .ok _
    · split
      · exact ((hothers _).map _).of_suffix (List.suffix_cons _ _)
      · split
        · exact ((hothers _).map _).of_suffix (readIdentifier_suffix _)
        · exact hothers _
  intro text
  change AccurateIn limit text (readCompound nested text)
  rw [readCompound]
  split
  · rename_i hfault
    exact .error (hsimples text hfault)
  · exact .error (accurate_noCompound limit text)
  · exact .ok _

theorem accurateIn_readCombinator (limit : Nat) (text : List Char) :
    AccurateIn limit text (readCombinator text) := by
  have hsuffix := trimAsciiStart_suffix text
  rw [readCombinator]
  split
  · exact .ok _
  · rename_i c rest htrim
    rw [htrim] at hsuffix
    repeat' split
    all_goals first
      | exact .ok _
      | exact .error ⟨rest, rfl, hsuffix⟩

theorem accurate_chainReader {limit : Nat} {compound : Reader Compound}
    (hcompound : compound.Accurate limit) : (chainReader compound).Accurate limit := by
  intro text
  change AccurateIn limit text (readChain compound text)
  induction text using Follows.induction with
  | step text ih =>
      rw [readChain_eq]
      apply (hcompound text).bind
      intro first hfirst
      have hfollows := compound.follows hfirst
      apply ((accurateIn_readCombinator limit first.2).of_suffix hfollows.suffix).bind
      intro joined hjoined
      split
      · exact .ok _
      · have hnext := hfollows.of_suffix (readCombinator_suffix hjoined)
        exact ((ih joined.2 hnext).map _).of_suffix hnext.suffix

theorem accurate_alternativesReader {limit : Nat} {chain : Reader Complex}
    (hchain : chain.Accurate limit) : (alternativesReader chain).Accurate limit := by
  intro text
  change AccurateIn limit text (readAlternatives chain text)
  induction text using Follows.induction with
  | step text ih =>
      have htrim := trimAsciiStart_suffix text
      rw [readAlternatives_eq]
      apply ((hchain (Text.trimAsciiStart text)).of_suffix htrim).bind
      intro first hfirst
      split
      · rename_i next hcomma
        have hsuffix := hcomma ▸ trimAsciiStart_suffix first.2
        have hnext := ((chain.follows hfirst).of_follows htrim).of_suffix
          ((List.suffix_cons ',' next).trans hsuffix)
        exact ((ih next hnext).map _).of_suffix hnext.suffix
      · exact .ok _

/-- Below the last level the one fault is that the limit is exceeded. -/
theorem accurateOnLists_listReader (limit levels : Nat) : (listReader limit levels).AccurateOnLists limit := by
  induction levels with
  | zero => exact ⟨fun text => .error rfl, endsList_of_listReader⟩
  | succ levels ih =>
      exact ⟨accurate_alternativesReader (accurate_chainReader (accurate_compoundReader ih)),
        endsList_of_listReader⟩

/-! ## Offsets -/

/-- What stands in the text from an offset in bytes on. -/
def StandsAt (text : String) (offset : Nat) (rest : List Char) : Prop :=
  ∃ front : String, text = front ++ String.ofList rest ∧ front.utf8ByteSize = offset

namespace StandsAt

variable {text : String} {offset : Nat} {rest : List Char}

theorem le_utf8ByteSize (hstands : StandsAt text offset rest) : offset ≤ text.utf8ByteSize := by
  obtain ⟨front, rfl, rfl⟩ := hstands
  rw [String.utf8ByteSize_append]
  exact Nat.le_add_right _ _

theorem isValid (hstands : StandsAt text offset rest) : (String.Pos.Raw.mk offset).IsValid text := by
  obtain ⟨front, htext, rfl⟩ := hstands
  exact String.Pos.Raw.isValid_iff_exists_append.mpr ⟨front, String.ofList rest, htext, rfl⟩

end StandsAt

namespace SelectorList

theorem byteLength_eq_sum (text : List Char) : byteLength text = (text.map Char.utf8Size).sum := by
  rw [byteLength, List.sum_eq_foldl, List.foldl_map]

theorem utf8ByteSize_ofList_eq (text : List Char) : (String.ofList text).utf8ByteSize = byteLength text := by
  rw [byteLength_eq_sum]
  induction text with
  | nil => rfl
  | cons c text ih =>
      rw [String.ofList_cons, String.utf8ByteSize_append, String.utf8ByteSize_singleton, ih, List.map_cons,
        List.sum_cons]

/-- The offset of a place is where its text stands. -/
theorem standsAt_of_isLeft {text : String} {position rest : List Char}
    (hleft : IsLeft text.toList position rest) :
    StandsAt text (byteLength text.toList - byteLength position) rest := by
  obtain ⟨rfl, front, hfront⟩ := hleft
  refine ⟨String.ofList front, ?_, ?_⟩
  · rw [← String.ofList_append, hfront, String.ofList_toList]
  · rw [utf8ByteSize_ofList_eq, ← hfront, byteLength_eq_sum, byteLength_eq_sum, byteLength_eq_sum,
      List.map_append, List.sum_append, Nat.add_sub_cancel]

theorem ofChars_blank {limit : Nat} {text : List Char} (hblank : text.all Text.isAsciiBlank = true) :
    ofChars limit text = .error .blank := by
  rw [ofChars, if_pos hblank]

theorem accurateIn_ofChars {limit : Nat} {text : List Char} (hblank : text.all Text.isAsciiBlank = false) :
    AccurateIn limit text (ofChars limit text) := by
  have hlists := accurateOnLists_listReader limit (limit + 1)
  rw [ofChars, if_neg (Bool.eq_false_iff.mp hblank)]
  split
  · rename_i hfault
    exact .error (hlists.accurate text hfault)
  · exact .ok _
  · rename_i alternatives rest _ hlist
    refine .error ⟨rest, ⟨rfl, (Reader.follows _ hlist).suffix⟩, ?_⟩
    exact fun c hc => .inr (hlists.endsList hlist c hc)

theorem accurate_of_parseWithin {limit : Nat} {text : String}
    (hblank : text.toList.all Text.isAsciiBlank = false) {fault : Fault Nat}
    (hparse : parseWithin limit text = .error fault) :
    fault.Accurate (min limit greatestLimit) (StandsAt text) := by
  rw [parseWithin] at hparse
  cases hread : ofChars (min limit greatestLimit) text.toList with
  | ok alternatives =>
      rw [hread] at hparse
      cases hparse
  | error cause =>
      rw [hread] at hparse
      cases hparse
      exact (accurateIn_ofChars hblank hread).map fun _ _ => standsAt_of_isLeft

/-- Only a blank text is rejected as blank.  Every other fault tells what stands at the place that it names,
and the offset of the place lies within the text and between two characters of it. -/
theorem parseWithin_faults (limit : Nat) (text : String) :
    (parseWithin limit text = .error .blank ↔ text.toList.all Text.isAsciiBlank = true) ∧
    ∀ fault, parseWithin limit text = .error fault → fault ≠ .blank →
      fault.Accurate (min limit greatestLimit) (StandsAt text) ∧
      ∀ offset ∈ fault.place?,
        offset ≤ text.utf8ByteSize ∧ (String.Pos.Raw.mk offset).IsValid text := by
  have hblank : text.toList.all Text.isAsciiBlank = true → parseWithin limit text = .error .blank := by
    intro hblank
    rw [parseWithin, ofChars_blank hblank]
    rfl
  refine ⟨⟨fun hparse => ?_, hblank⟩, fun fault hparse hne => ?_⟩
  · by_contra hnot
    exact accurate_of_parseWithin (Bool.eq_false_iff.mpr hnot) hparse
  · have haccurate : fault.Accurate (min limit greatestLimit) (StandsAt text) := by
      apply accurate_of_parseWithin _ hparse
      rw [Bool.eq_false_iff]
      intro hall
      rw [hblank hall] at hparse
      cases hparse
      exact hne rfl
    refine ⟨haccurate, fun offset hoffset => ?_⟩
    obtain ⟨rest, hrest⟩ := haccurate.exists_stands hoffset
    exact ⟨hrest.le_utf8ByteSize, hrest.isValid⟩

/-- A name that is lowered in its ASCII letters only, behind a character of three bytes. -/
theorem parseWithin_faults_unknownName :
    let text := "日,\t:NÉw(x)"
    let fault : Fault Nat := .unknownPseudoClass "nÉw" 5
    parseWithin 2 text = .error fault ∧ fault ≠ .blank ∧
      fault.Accurate (min 2 greatestLimit) (StandsAt text) ∧
      5 ≤ text.utf8ByteSize ∧ (String.Pos.Raw.mk 5).IsValid text := by
  intro text fault
  have hparse : parseWithin 2 text = .error fault := by decide +kernel
  have hne : fault ≠ .blank := fun hblank => nomatch hblank
  obtain ⟨haccurate, hoffset⟩ := (parseWithin_faults 2 text).2 fault hparse hne
  exact ⟨hparse, hne, haccurate, hoffset 5 rfl⟩

end SelectorList

end FlatTree.Selector
