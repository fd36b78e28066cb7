import FlatTree.Proofs.Selector.Positions
import FlatTree.Proofs.Selector.Readings
import FlatTree.Proofs.Selector.WellFormed

/-!
# Reading spelled selector lists

Every spelling of a well-formed selector list reads as the list, at every limit that its depth does not
exceed.  Each layer of the grammar has its own law, which says what may follow the spelling in the text;
the law of a negation uses the law of lists on one level less.
-/

namespace FlatTree.Selector

/-! ## What may follow -/

/-- The characters that can stand behind a compound. -/
def closesCompound (c : Char) : Bool :=
  Text.isAsciiBlank c || c = '>' || c = '+' || c = '~' || c = ',' || c = ')'

/-- A text that does not continue a selector list which stands before it. -/
def EndsList (rest : List Char) : Prop :=
  ∀ c ∈ rest.head?, c = ')'

/-- A text that does not continue a chain which stands before it. -/
def EndsChain (rest : List Char) : Prop :=
  ∀ c ∈ rest.head?, c = ',' ∨ c = ')'

/-- A text that does not continue a compound which stands before it. -/
def EndsCompound (rest : List Char) : Prop :=
  ∀ c ∈ rest.head?, closesCompound c = true

/-- A text that does not continue a simple selector which stands before it. -/
def EndsSimple (rest : List Char) : Prop :=
  ∀ c ∈ rest.head?, opensSimple c = true ∨ closesCompound c = true

theorem EndsList.endsChain {rest : List Char} (hends : EndsList rest) : EndsChain rest := by
  intro c hc
  exact .inr (hends c hc)

theorem EndsCompound.endsSimple {rest : List Char} (hends : EndsCompound rest) :
    EndsSimple rest := by
  intro c hc
  exact .inr (hends c hc)

theorem opensSimple_cases {c : Char} (hopens : opensSimple c = true) :
    c = '.' ∨ c = '#' ∨ c = '[' ∨ c = ':' := by
  simp only [opensSimple, Bool.or_eq_true, decide_eq_true_eq] at hopens
  rcases hopens with ((hdot | hhash) | hbracket) | hcolon
  · exact .inl hdot
  · exact .inr (.inl hhash)
  · exact .inr (.inr (.inl hbracket))
  · exact .inr (.inr (.inr hcolon))

theorem not_isNamePart_of_closesCompound {c : Char} (hcloses : closesCompound c = true) :
    isNamePart c = false ∧ c ≠ '\\' ∧ c ≠ '(' ∧ opensSimple c = false := by
  simp only [closesCompound, Text.isAsciiBlank, Bool.or_eq_true, decide_eq_true_eq] at hcloses
  rcases hcloses with ((((((((rfl | rfl) | rfl) | rfl) | rfl) | rfl) | rfl) | rfl) | rfl) | rfl
  all_goals decide

theorem EndsSimple.endsName {rest : List Char} (hends : EndsSimple rest) : EndsName rest := by
  cases rest with
  | nil => exact endsName_nil
  | cons c rest =>
      rcases hends c rfl with hopens | hcloses
      · rcases opensSimple_cases hopens with rfl | rfl | rfl | rfl
        all_goals exact endsName_cons (by decide) (by decide)
      · obtain ⟨hpart, hslash, -, -⟩ := not_isNamePart_of_closesCompound hcloses
        exact endsName_cons hpart hslash

theorem EndsSimple.head_ne_parenthesis {c : Char} {rest : List Char}
    (hends : EndsSimple (c :: rest)) : c ≠ '(' := by
  rcases hends c rfl with hopens | hcloses
  · rcases opensSimple_cases hopens with rfl | rfl | rfl | rfl
    all_goals decide
  · exact (not_isNamePart_of_closesCompound hcloses).2.2.1

theorem endsCompound_cons {c : Char} (hcloses : closesCompound c = true) (rest : List Char) :
    EndsCompound (c :: rest) := by
  intro other hother
  cases hother
  exact hcloses

theorem Blanks.endsCompound_append {blanks rest : List Char} (hblanks : Blanks blanks)
    (hends : EndsCompound rest) : EndsCompound (blanks ++ rest) := by
  cases blanks with
  | nil => exact hends
  | cons c blanks =>
      apply endsCompound_cons
      simp [closesCompound, hblanks c List.mem_cons_self]

theorem EndsChain.endsCompound {rest : List Char} (hends : EndsChain rest) : EndsCompound rest := by
  intro c hc
  rcases hends c hc with rfl | rfl
  all_goals decide

/-! ## Simple selectors -/

theorem toList_ne_nil {name : String} (hname : name ≠ "") : name.toList ≠ [] := by
  intro hnil
  exact hname (String.toList_eq_nil_iff.1 hnil)

/-- A reader of lists that reads the spellings of all lists of less than some depth, with the blanks
around them. -/
def ReadsLists (nested : Reader SelectorList) (levels : Nat) : Prop :=
  ∀ alternatives : SelectorList, alternatives.WellFormed → alternatives.depth < levels →
    ∀ text, SpellsAlternatives alternatives text → ∀ front back rest, Blanks front → Blanks back →
      EndsList rest → nested.read (front ++ (text ++ (back ++ rest))) = .ok (alternatives, rest)

variable {nested : Reader SelectorList} {levels : Nat}

theorem expectIdentifier_of_spellsKeyword {keyword : String} {text rest : List Char}
    (hkeyword : SpellsKeyword keyword text) (hne : keyword ≠ "") (hends : EndsName rest) :
    ∃ name, expectIdentifier (text ++ rest) = .ok (name, rest) ∧
      String.ofList (Text.asciiLower name) = keyword := by
  obtain ⟨name, hlower, hname⟩ := hkeyword
  have hwritten : name ≠ [] := by
    rintro rfl
    exact hne hlower.symm
  exact ⟨name, expectIdentifier_of_spells hname hwritten hends, hlower⟩

theorem readSimple_plain {keyword : String} {text rest : List Char} {feature : Feature}
    (hkeyword : SpellsKeyword keyword text) (hne : keyword ≠ "")
    (hnamed : PseudoClass.named? keyword = some (.simple feature)) (hends : EndsSimple rest) :
    readSimple nested (':' :: (text ++ rest)) = .ok (.feature feature, rest) := by
  obtain ⟨name, hexpect, hlower⟩ := expectIdentifier_of_spellsKeyword hkeyword hne hends.endsName
  rw [readSimple, readPseudoClass, hexpect]
  simp only [hlower, hnamed]
  split
  · rename_i argument
    exact absurd rfl hends.head_ne_parenthesis
  · rfl

theorem readSimple_with_argument {keyword : String} {text inside : List Char} {kind : PseudoClass}
    (hkeyword : SpellsKeyword keyword text) (hne : keyword ≠ "")
    (hnamed : PseudoClass.named? keyword = some kind) :
    readSimple nested (':' :: (text ++ '(' :: inside)) =
      match kind with
      | .not => (readExclusion nested ('(' :: inside)).map fun found => (.not found.1, found.2)
      | .nthChild => (readPosition ('(' :: inside)).map fun found =>
          (.feature (.nthChild found.1), found.2)
      | .nthLastChild => (readPosition ('(' :: inside)).map fun found =>
          (.feature (.nthLastChild found.1), found.2)
      | .simple _ => .error (unexpectedAt ('(' :: inside)) := by
  have hends : EndsName ('(' :: inside) := endsName_cons (by decide) (by decide)
  obtain ⟨name, hexpect, hlower⟩ := expectIdentifier_of_spellsKeyword hkeyword hne hends
  rw [readSimple, readPseudoClass, hexpect]
  simp only [hlower, hnamed]
  cases kind <;> rfl

theorem readSimple_of_spellsFeature {feature : Feature} (hwf : feature.WellFormed)
    (hfirst : ¬ (Simple.feature feature).OnlyFirst) {text rest : List Char}
    (hspelled : SpellsFeature feature text) (hends : EndsSimple rest) :
    readSimple nested (text ++ rest) = .ok (.feature feature, rest) := by
  cases hspelled with
  | type => exact absurd trivial hfirst
  | universal => exact absurd trivial hfirst
  | hasId hname =>
      rw [List.cons_append, readSimple,
        expectIdentifier_of_spells hname (toList_ne_nil hwf) hends.endsName]
      simp only [Except.map, String.ofList_toList]
  | hasClass hname =>
      rw [List.cons_append, readSimple,
        expectIdentifier_of_spells hname (toList_ne_nil hwf) hends.endsName]
      simp only [Except.map, String.ofList_toList]
  | @hasAttribute test text htest =>
      have hinside := AttributeTest.readInside_of_spells (text ++ rest) htest hwf.1 rest
      obtain ⟨inside, rfl⟩ := htest.exists_cons
      rw [List.cons_append, readSimple]
      exact congrArg
        (Except.map fun found => (Simple.feature (.hasAttribute found.1), found.2)) hinside
  | nthChild hkeyword hargument =>
      rw [List.cons_append, List.append_assoc, List.cons_append, List.append_assoc,
        List.singleton_append, readSimple_with_argument hkeyword (by decide) rfl]
      simp only [readPosition_of_read? hargument, Except.map]
  | nthLastChild hkeyword hargument =>
      rw [List.cons_append, List.append_assoc, List.cons_append, List.append_assoc,
        List.singleton_append, readSimple_with_argument hkeyword (by decide) rfl]
      simp only [readPosition_of_read? hargument, Except.map]
  | firstChild hkeyword => exact readSimple_plain hkeyword (by decide) rfl hends
  | lastChild hkeyword => exact readSimple_plain hkeyword (by decide) rfl hends
  | onlyChild hkeyword => exact readSimple_plain hkeyword (by decide) rfl hends

theorem readSimple_of_spells {simple : Simple} (hwf : wellFormedSimple simple)
    (hfirst : ¬ simple.OnlyFirst) (hnested : ReadsLists nested levels)
    (hdepth : depthSimple simple ≤ levels) {text rest : List Char}
    (hspelled : SpellsSimple simple text) (hends : EndsSimple rest) :
    readSimple nested (text ++ rest) = .ok (simple, rest) := by
  cases hspelled with
  | feature hfeature => exact readSimple_of_spellsFeature hwf hfirst hfeature hends
  | @not alternatives keyword front text back hkeyword hfront hlist hback =>
      have hclosed : EndsList (')' :: rest) := by
        intro c hc
        cases hc
        rfl
      have hread := hnested alternatives hwf hdepth text hlist front back (')' :: rest) hfront hback
        hclosed
      simp only [List.cons_append, List.append_assoc, List.nil_append]
      rw [readSimple_with_argument hkeyword (by decide) rfl]
      simp only [readExclusion, hread, Except.map]

/-- What does not only stand first opens with a mark of its own. -/
theorem SpellsSimple.exists_cons {simple : Simple} {text : List Char}
    (hspelled : SpellsSimple simple text) (hfirst : ¬ simple.OnlyFirst) :
    ∃ c rest, text = c :: rest ∧ opensSimple c = true := by
  cases hspelled with
  | not => exact ⟨':', _, rfl, by decide⟩
  | feature hfeature =>
      cases hfeature with
      | type => exact absurd trivial hfirst
      | universal => exact absurd trivial hfirst
      | hasId => exact ⟨'#', _, rfl, by decide⟩
      | hasClass => exact ⟨'.', _, rfl, by decide⟩
      | hasAttribute htest =>
          obtain ⟨inside, rfl⟩ := htest.exists_cons
          exact ⟨'[', inside, rfl, by decide⟩
      | _ => exact ⟨':', _, rfl, by decide⟩

/-! ## Compounds -/

theorem SpellsCompound.endsSimple_append {simples : List Simple} {text : List Char}
    (hspelled : SpellsCompound simples text) (hfirst : ∀ simple ∈ simples, ¬ simple.OnlyFirst)
    {rest : List Char} (hends : EndsCompound rest) : EndsSimple (text ++ rest) := by
  cases hspelled with
  | nil => exact hends.endsSimple
  | cons hsimple _ =>
      obtain ⟨c, more, rfl, hopens⟩ := hsimple.exists_cons (hfirst _ List.mem_cons_self)
      intro other hother
      cases hother
      exact .inl hopens

theorem many_of_spellsCompound {simples : Compound} (hwf : wellFormedSimples simples)
    (hfirst : ∀ simple ∈ simples, ¬ simple.OnlyFirst) (hnested : ReadsLists nested levels)
    (hdepth : depthSimples simples ≤ levels) {text rest : List Char}
    (hspelled : SpellsCompound simples text) (hends : EndsCompound rest) :
    (simpleReader nested).many opensSimple (text ++ rest) = .ok (simples, rest) := by
  induction simples generalizing text with
  | nil =>
      cases hspelled
      cases rest with
      | nil => rw [List.append_nil, Reader.many]
      | cons c more =>
          obtain ⟨-, -, -, hcloses⟩ := not_isNamePart_of_closesCompound (hends c rfl)
          rw [List.nil_append, Reader.many, hcloses, if_neg Bool.false_ne_true]
  | cons simple simples ih =>
      rw [List.forall_mem_cons] at hfirst
      rw [depthSimples, Nat.max_le] at hdepth
      cases hspelled with
      | cons hsimple hrest =>
          obtain ⟨c, more, hcons, hopens⟩ := hsimple.exists_cons hfirst.1
          rw [List.append_assoc]
          apply Reader.many_cons
          · rw [hcons]
            exact ⟨c, _, rfl, hopens⟩
          · exact readSimple_of_spells hwf.1 hfirst.1 hnested hdepth.1 hsimple
              (hrest.endsSimple_append hfirst.2 hends)
          · exact ih hwf.2 hfirst.2 hdepth.2 hrest

/-- The characters that open a compound. -/
def opensCompound (c : Char) : Bool :=
  c = '*' || isNameStart c || opensSimple c

theorem isNameStart_eq_false_of_opensSimple {c : Char} (hopens : opensSimple c = true) :
    isNameStart c = false ∧ c ≠ '*' := by
  rcases opensSimple_cases hopens with rfl | rfl | rfl | rfl
  all_goals decide

/-- The first simple selector of a compound is a type, universal, or what could stand later as well. -/
theorem Simple.cases_onlyFirst (simple : Simple) :
    (∃ name, simple = .feature (.type name)) ∨ simple = .feature .universal ∨
      ¬ simple.OnlyFirst := by
  cases simple with
  | not alternatives => exact .inr (.inr id)
  | feature feature =>
      cases feature with
      | type name => exact .inl ⟨name, rfl⟩
      | universal => exact .inr (.inl rfl)
      | _ => exact .inr (.inr id)

theorem SpellsSimple.type {name : String} {text : List Char}
    (hspelled : SpellsSimple (.feature (.type name)) text) : SpellsIdentifier name.toList text := by
  cases hspelled with
  | feature hfeature =>
      cases hfeature with
      | type hname => exact hname

theorem SpellsSimple.universal {text : List Char}
    (hspelled : SpellsSimple (.feature .universal) text) : text = ['*'] := by
  cases hspelled with
  | feature hfeature =>
      cases hfeature with
      | universal => rfl

theorem SpellsCompound.exists_cons {compound : Compound} (hwf : compound.WellFormed)
    {text : List Char} (hspelled : SpellsCompound compound text) :
    ∃ c rest, text = c :: rest ∧ opensCompound c = true := by
  obtain ⟨hne, -, hsimples⟩ := hwf
  cases hspelled with
  | nil => exact absurd rfl hne
  | @cons simple simples text more hsimple hrest =>
      have hopens : ∃ c rest, text = c :: rest ∧ opensCompound c = true := by
        rcases simple.cases_onlyFirst with ⟨name, rfl⟩ | rfl | hfirst
        · obtain ⟨c, rest, rfl, hstart⟩ := hsimple.type.exists_cons (toList_ne_nil hsimples.1)
          exact ⟨c, rest, rfl, by simp [opensCompound, hstart]⟩
        · exact ⟨'*', [], hsimple.universal, by decide⟩
        · obtain ⟨c, rest, rfl, hopens⟩ := hsimple.exists_cons hfirst
          exact ⟨c, rest, rfl, by simp [opensCompound, hopens]⟩
      obtain ⟨c, rest, rfl, hc⟩ := hopens
      exact ⟨c, rest ++ more, rfl, hc⟩

theorem readSimples_of_spells {compound : Compound} (hwf : compound.WellFormed)
    (hnested : ReadsLists nested levels) (hdepth : depthSimples compound ≤ levels)
    {text rest : List Char} (hspelled : SpellsCompound compound text) (hends : EndsCompound rest) :
    readSimples nested (text ++ rest) = .ok (compound, rest) := by
  obtain ⟨hne, hfirst, hsimples⟩ := hwf
  cases hspelled with
  | nil => exact absurd rfl hne
  | @cons simple simples text more hsimple hrest =>
      rw [List.tail_cons] at hfirst
      have hothers := many_of_spellsCompound hsimples.2 hfirst hnested
        (Nat.le_trans (Nat.le_max_right _ _) hdepth) hrest hends
      rw [List.append_assoc]
      rcases simple.cases_onlyFirst with ⟨name, rfl⟩ | rfl | hlater
      · have hname := readIdentifier_of_spellsName hsimple.type.spellsName
          (hrest.endsSimple_append hfirst hends).endsName
        obtain ⟨c, inner, rfl, hstart⟩ := hsimple.type.exists_cons (toList_ne_nil hsimples.1)
        have hstar : c ≠ '*' := by
          rintro rfl
          exact absurd hstart (by decide)
        rw [List.cons_append] at hname ⊢
        simp only [readSimples, if_neg hstar, if_pos hstart, hname, hothers, Except.map,
          String.ofList_toList]
      · obtain rfl := hsimple.universal
        rw [List.singleton_append]
        simp only [readSimples, if_pos, hothers, Except.map]
      · have hall := many_of_spellsCompound hsimples (List.forall_mem_cons.2 ⟨hlater, hfirst⟩) hnested
          hdepth (.cons hsimple hrest) hends
        obtain ⟨c, inner, rfl, hopens⟩ := hsimple.exists_cons hlater
        obtain ⟨hstart, hstar⟩ := isNameStart_eq_false_of_opensSimple hopens
        rw [List.append_assoc, List.cons_append] at hall
        rw [List.cons_append]
        simp only [readSimples, if_neg hstar, hstart, if_neg Bool.false_ne_true, hall]

theorem readCompound_of_spells {compound : Compound} (hwf : compound.WellFormed)
    (hnested : ReadsLists nested levels) (hdepth : depthSimples compound ≤ levels)
    {text rest : List Char} (hspelled : SpellsCompound compound text) (hends : EndsCompound rest) :
    readCompound nested (text ++ rest) = .ok (compound, rest) := by
  have hread := readSimples_of_spells hwf hnested hdepth hspelled hends
  cases compound with
  | nil => exact absurd rfl hwf.ne_nil
  | cons simple simples => rw [readCompound, hread]

/-! ## Chains -/

theorem isAsciiBlank_eq_false_of_opensCompound {c : Char} (hopens : opensCompound c = true) :
    Text.isAsciiBlank c = false :=
  isAsciiBlank_eq_false (by decide) hopens

/-- A compound does not open with what joins or ends compounds. -/
theorem ne_of_opensCompound {c other : Char} (hopens : opensCompound c = true)
    (hother : opensCompound other = false) : c ≠ other := by
  rintro rfl
  rw [hopens] at hother
  cases hother

theorem readCombinator_marked {combinator : Combinator} {mark : Char}
    (hmark : combinator.mark? = some mark) {front : List Char} (hfront : Blanks front)
    (rest : List Char) :
    readCombinator (front ++ mark :: rest) = .ok (some combinator, Text.trimAsciiStart rest) := by
  cases combinator with
  | descendant => cases hmark
  | child | adjacent | general =>
      cases hmark
      rw [readCombinator, trimAsciiStart_append hfront, trimAsciiStart_cons (by decide)]
      rfl

theorem readCombinator_of_spells {combinator : Combinator} {joint : List Char}
    (hjoint : SpellsCombinator combinator joint) {c : Char} (hopens : opensCompound c = true)
    (rest : List Char) :
    readCombinator (joint ++ c :: rest) = .ok (some combinator, c :: rest) := by
  have htrim : Text.trimAsciiStart (c :: rest) = c :: rest :=
    trimAsciiStart_cons (isAsciiBlank_eq_false_of_opensCompound hopens) rest
  cases hjoint with
  | marked hmark hfront hback =>
      rw [List.append_assoc, List.cons_append, readCombinator_marked hmark hfront,
        trimAsciiStart_append hback, htrim]
  | descendant hblanks hne =>
      have hcomma : c ≠ ',' := ne_of_opensCompound hopens (by decide)
      have hclose : c ≠ ')' := ne_of_opensCompound hopens (by decide)
      have hchild : c ≠ '>' := ne_of_opensCompound hopens (by decide)
      have hadjacent : c ≠ '+' := ne_of_opensCompound hopens (by decide)
      have hgeneral : c ≠ '~' := ne_of_opensCompound hopens (by decide)
      obtain ⟨blank, blanks, rfl⟩ := List.exists_cons_of_ne_nil hne
      have hhead : ((blank :: blanks ++ c :: rest).head?.any Text.isAsciiBlank) = true :=
        hblanks blank List.mem_cons_self
      rw [readCombinator, trimAsciiStart_append hblanks, htrim]
      simp only [hcomma, hclose, hchild, hadjacent, hgeneral, decide_false, Bool.or_self, if_false,
        hhead, if_true]
      rfl

theorem readCombinator_of_endsChain {rest : List Char} (hends : EndsChain (Text.trimAsciiStart rest)) :
    readCombinator rest = .ok (none, Text.trimAsciiStart rest) := by
  rw [readCombinator]
  generalize Text.trimAsciiStart rest = trimmed at hends
  cases trimmed with
  | nil => rfl
  | cons c rest =>
      rcases hends c rfl with rfl | rfl
      all_goals rfl

/-- A combinator stands behind a compound. -/
theorem SpellsCombinator.endsCompound_append {combinator : Combinator} {joint : List Char}
    (hjoint : SpellsCombinator combinator joint) (rest : List Char) : EndsCompound (joint ++ rest) := by
  cases hjoint with
  | descendant hblanks hne =>
      obtain ⟨blank, blanks, rfl⟩ := List.exists_cons_of_ne_nil hne
      apply endsCompound_cons
      simp [closesCompound, hblanks blank List.mem_cons_self]
  | marked hmark hfront hback =>
      rw [List.append_assoc]
      apply hfront.endsCompound_append
      apply endsCompound_cons
      cases combinator
      all_goals cases hmark
      all_goals decide

theorem EndsChain.endsCompound_of_trim {rest : List Char}
    (hends : EndsChain (Text.trimAsciiStart rest)) : EndsCompound rest := by
  rw [← List.takeWhile_append_dropWhile (p := Text.isAsciiBlank) (l := rest)]
  apply Blanks.endsCompound_append _ hends.endsCompound
  intro c hc
  exact List.mem_takeWhile_imp hc

theorem SpellsChain.exists_cons {chain : Complex} (hwf : wellFormedChain chain) {text : List Char}
    (hspelled : SpellsChain chain text) : ∃ c rest, text = c :: rest ∧ opensCompound c = true := by
  cases hspelled with
  | last hcompound => exact hcompound.exists_cons ⟨hwf.1, hwf.2.1, hwf.2.2⟩
  | link hcompound hjoint hrest =>
      obtain ⟨c, more, rfl, hopens⟩ := hcompound.exists_cons ⟨hwf.1.1, hwf.1.2.1, hwf.1.2.2⟩
      exact ⟨c, _, rfl, hopens⟩

/-- A chain takes the blanks behind it, as they could have been a combinator. -/
theorem readChain_of_spells {chain : Complex} (hwf : wellFormedChain chain)
    (hnested : ReadsLists nested levels) (hdepth : depthChain chain ≤ levels)
    {text following rest : List Char} (hspelled : SpellsChain chain text)
    (htrim : Text.trimAsciiStart following = rest) (hends : EndsChain rest) :
    readChain (compoundReader nested) (text ++ following) = .ok (chain, rest) := by
  subst htrim
  induction chain generalizing text with
  | last compound =>
      cases hspelled with
      | last hcompound =>
          apply readChain_last
          · exact readCompound_of_spells ⟨hwf.1, hwf.2.1, hwf.2.2⟩ hnested hdepth hcompound
              hends.endsCompound_of_trim
          · exact readCombinator_of_endsChain hends
  | link compound combinator chain ih =>
      rw [depthChain, Nat.max_le] at hdepth
      obtain ⟨⟨hne, hfirst, hsimples⟩, hchain⟩ := hwf
      cases hspelled with
      | link hcompound hjoint hrest =>
          have hothers := ih hchain hdepth.2 hrest
          obtain ⟨c, more, rfl, hopens⟩ := hrest.exists_cons hchain
          rw [List.append_assoc, List.append_assoc]
          apply readChain_link
          · exact readCompound_of_spells ⟨hne, hfirst, hsimples⟩ hnested hdepth.1 hcompound
              (hjoint.endsCompound_append _)
          · exact readCombinator_of_spells hjoint hopens _
          · exact hothers

/-- A chain in a list, behind the blanks before it. -/
theorem chainReader_of_spells {chain : Complex} (hwf : wellFormedChain chain)
    (hnested : ReadsLists nested levels) (hdepth : depthChain chain ≤ levels)
    {front text following rest : List Char} (hfront : Blanks front) (hspelled : SpellsChain chain text)
    (htrim : Text.trimAsciiStart following = rest) (hends : EndsChain rest) :
    (chainReader (compoundReader nested)).read (Text.trimAsciiStart (front ++ (text ++ following))) =
      .ok (chain, rest) := by
  have hread := readChain_of_spells hwf hnested hdepth hspelled htrim hends
  obtain ⟨c, more, rfl, hopens⟩ := hspelled.exists_cons hwf
  rw [trimAsciiStart_append hfront, List.cons_append,
    trimAsciiStart_cons (isAsciiBlank_eq_false_of_opensCompound hopens)]
  exact hread

/-! ## Lists -/

theorem EndsList.trimAsciiStart_eq {rest : List Char} (hends : EndsList rest) :
    Text.trimAsciiStart rest = rest := by
  cases rest with
  | nil => rfl
  | cons c rest =>
      rw [hends c rfl]
      exact trimAsciiStart_cons (by decide) rest

theorem EndsList.trimAsciiStart_ne_comma {rest : List Char} (hends : EndsList rest)
    (next : List Char) : Text.trimAsciiStart rest ≠ ',' :: next := by
  intro hcomma
  rw [hends.trimAsciiStart_eq] at hcomma
  rw [hcomma] at hends
  exact absurd (hends ',' rfl) (by decide)

theorem endsChain_comma (rest : List Char) : EndsChain (',' :: rest) := by
  intro c hc
  cases hc
  exact .inl rfl

theorem readAlternatives_of_spells {alternatives : SelectorList} (hwf : wellFormedAlternatives alternatives)
    (hnested : ReadsLists nested levels) (hdepth : alternatives.depth ≤ levels)
    {text front back rest : List Char} (hspelled : SpellsAlternatives alternatives text)
    (hfront : Blanks front) (hback : Blanks back) (hends : EndsList rest) :
    readAlternatives (chainReader (compoundReader nested)) (front ++ (text ++ (back ++ rest))) =
      .ok (alternatives, rest) := by
  induction alternatives generalizing text front with
  | nil => cases hspelled
  | cons chain chains ih =>
      rw [SelectorList.depth, depthAlternatives, Nat.max_le] at hdepth
      cases hspelled with
      | last hchain =>
          have htrim : Text.trimAsciiStart (back ++ rest) = rest := by
            rw [trimAsciiStart_append hback, hends.trimAsciiStart_eq]
          have hread := chainReader_of_spells hwf.1 hnested hdepth.1 hfront hchain htrim hends.endsChain
          have hlist := readAlternatives_last hread hends.trimAsciiStart_ne_comma
          rwa [hends.trimAsciiStart_eq] at hlist
      | cons hchain hahead hbehind hrest =>
          have hcomma (next : List Char) : Text.trimAsciiStart (',' :: next) = ',' :: next :=
            trimAsciiStart_cons (by decide) next
          have hothers := ih hwf.2 hdepth.2 hrest hbehind
          simp only [List.append_assoc, List.cons_append]
          apply readAlternatives_cons _ (hcomma _) hothers
          apply chainReader_of_spells hwf.1 hnested hdepth.1 hfront hchain _ (endsChain_comma _)
          rw [trimAsciiStart_append hahead, hcomma]

/-- A reader on so many levels reads the lists whose depth is less. -/
theorem readsLists_listReader (limit levels : Nat) :
    ReadsLists (listReader limit levels) levels := by
  induction levels with
  | zero =>
      intro alternatives _ hdepth
      exact absurd hdepth (Nat.not_lt_zero _)
  | succ levels ih =>
      intro alternatives hwf hdepth text hspelled front back rest hfront hback hends
      exact readAlternatives_of_spells hwf.2 ih (Nat.le_of_lt_succ hdepth) hspelled hfront hback hends

theorem SpellsAlternatives.exists_cons {alternatives : SelectorList}
    (hwf : wellFormedAlternatives alternatives) {text : List Char}
    (hspelled : SpellsAlternatives alternatives text) :
    ∃ c rest, text = c :: rest ∧ opensCompound c = true := by
  cases hspelled with
  | last hchain => exact hchain.exists_cons hwf.1
  | cons hchain =>
      obtain ⟨c, more, rfl, hopens⟩ := hchain.exists_cons hwf.1
      exact ⟨c, _, rfl, hopens⟩

namespace SelectorList

theorem ofChars_of_spelledBy {alternatives : SelectorList} (hwf : alternatives.WellFormed) {limit : Nat}
    (hdepth : alternatives.depth ≤ limit) {text : String} (hspelled : alternatives.SpelledBy text) :
    ofChars limit text.toList = .ok alternatives := by
  obtain ⟨front, middle, back, htext, hfront, hmiddle, hback⟩ := hspelled
  have hread := readsLists_listReader limit (limit + 1) alternatives hwf (Nat.lt_succ_of_le hdepth)
    middle hmiddle front back [] hfront hback (by intro c hc; cases hc)
  rw [List.append_nil, ← List.append_assoc, ← htext] at hread
  have hblank : ¬ text.toList.all Text.isAsciiBlank = true := by
    obtain ⟨c, more, rfl, hopens⟩ := hmiddle.exists_cons hwf.2
    have hmem : c ∈ text.toList := by
      simp [htext]
    intro hall
    have hc := List.all_eq_true.mp hall c hmem
    rw [isAsciiBlank_eq_false_of_opensCompound hopens] at hc
    cases hc
  rw [ofChars, if_neg hblank, hread]

/-- Every spelling of a well-formed list is read as the list at every limit that its depth does not
exceed. -/
theorem parseWithin_of_spelledBy (alternatives : SelectorList) (text : String) (limit : Nat)
    (hwf : alternatives.WellFormed) (hdepth : alternatives.depth ≤ min limit greatestLimit)
    (hspelled : alternatives.SpelledBy text) : parseWithin limit text = .ok alternatives := by
  rw [parseWithin, ofChars_of_spelledBy hwf hdepth hspelled]
  rfl

/-- A list whose names and values need an escape or a quote. -/
def oddlyNamed : SelectorList :=
  [.link [.feature (.type "a.b")] .general
    (.last [.feature (.nthChild .odd),
      .not [.last [.feature (.hasAttribute ⟨"data-x", some (.includes, "it's")⟩)],
        .last [.feature .universal]]])]

theorem parseWithin_of_spelledBy_oddlyNamed :
    oddlyNamed.WellFormed ∧ oddlyNamed.depth ≤ min 1 greatestLimit ∧
      oddlyNamed.SpelledBy "\ta\\.\\62  ~\n:nth-CHILD( oDD ):NOT( [ DATA-x ~= 'it\\'s' ] ,*\t) " ∧
      parseWithin 1 "\ta\\.\\62  ~\n:nth-CHILD( oDD ):NOT( [ DATA-x ~= 'it\\'s' ] ,*\t) " =
        .ok oddlyNamed := by
  have hwf : oddlyNamed.WellFormed := by
    simp [oddlyNamed, WellFormed, wellFormedAlternatives, wellFormedChain, wellFormedSimples,
      wellFormedSimple, Feature.WellFormed, Simple.OnlyFirst]
  have hdepth : oddlyNamed.depth ≤ min 1 greatestLimit := by decide
  have hnone : Blanks [] := List.all_eq_true.mp rfl
  have hspace : Blanks [' '] := List.all_eq_true.mp rfl
  have htab : Blanks ['\t'] := List.all_eq_true.mp rfl
  have hline : Blanks ['\n'] := List.all_eq_true.mp rfl
  have hplain {text : List Char} (hall : text.all isNamePart = true) : SpellsName text text :=
    spellsChars_of_plain (List.all_eq_true.mp hall)
  have hopens {c : Char} (text : List Char) (hdigit : c.isDigit = false) :
      ∀ first ∈ (c :: text).head?, first.isDigit = false := by
    intro first hfirst
    cases hfirst
    exact hdigit
  have htype : SpellsIdentifier "a.b".toList ['a', '\\', '.', '\\', '6', '2', ' '] := by
    have hlist : "a.b".toList = ['a', '.', 'b'] := String.toList_ofList
    have hdigits : ∀ digit ∈ ['6', '2'], (hexValue digit).isSome = true := by simp [hexValue]
    have hcode : SpellsName ['b'] ['\\', '6', '2', ' '] :=
      .cons (@SpellsChar.code _ _ _ ['6', '2'] ' ' (by decide) (by decide) hdigits (by decide)
        (by decide)) .nil
    rw [hlist]
    exact ⟨.cons (.plain (by decide)) (.cons (.escaped (by decide) trivial) hcode),
      hopens _ (by decide)⟩
  have hvalue : SpellsValue "it's".toList ['\'', 'i', 't', '\\', '\'', 's', '\''] := by
    have hlist : "it's".toList = ['i', 't', '\'', 's'] := String.toList_ofList
    rw [hlist]
    exact @SpellsValue.quoted _ '\'' _ (.inr rfl) (.cons (.plain (by decide)) (.cons
      (.plain (by decide)) (.cons (.escaped (by decide) (by decide)) (.cons (.plain (by decide)) .nil))))
  have hname : SpellsAttributeName "data-x" ['D', 'A', 'T', 'A', '-', 'x'] := ⟨_, rfl, hplain rfl⟩
  have htest := @SpellsTest.compared _ .includes _ _ _ _ _ _ _ hspace hname hspace hspace hvalue hspace
  have hnegation : SpellsKeyword "not" ['N', 'O', 'T'] := ⟨_, rfl, hplain rfl, hopens _ (by decide)⟩
  have hattribute : SpellsFeature (.hasAttribute ⟨"data-x", some (.includes, "it's")⟩) _ :=
    .hasAttribute htest
  have hnot := SpellsSimple.not hnegation hspace (.cons (.last (.cons (.feature hattribute) .nil)) hspace
    hnone (.last (.last (.cons (.feature .universal) .nil)))) htab
  have hposition : SpellsKeyword "nth-child" ['n', 't', 'h', '-', 'C', 'H', 'I', 'L', 'D'] :=
    ⟨_, rfl, hplain rfl, hopens _ (by decide)⟩
  have hodd : Nth.read? [' ', 'o', 'D', 'D', ' '] = some .odd := by decide
  have hgeneral := @SpellsCombinator.marked .general '~' _ _ rfl hspace hline
  have hspelled : oddlyNamed.SpelledBy
      "\ta\\.\\62  ~\n:nth-CHILD( oDD ):NOT( [ DATA-x ~= 'it\\'s' ] ,*\t) " :=
    ⟨['\t'], _, [' '], String.toList_ofList, htab,
      .last (.link (.cons (.feature (.type htype)) .nil) hgeneral
        (.last (.cons (.feature (.nthChild hposition hodd)) (.cons hnot .nil)))), hspace⟩
  exact ⟨hwf, hdepth, hspelled, parseWithin_of_spelledBy _ _ 1 hwf hdepth hspelled⟩

end SelectorList

end FlatTree.Selector
