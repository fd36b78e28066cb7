import FlatTree.Proofs.Selector.Continuation
import FlatTree.Proofs.Selector.NestingLimit
import FlatTree.Proofs.Selector.ParsedForms
import Mathlib.Tactic.SplitIfs

/-!
# Selector lists inside longer texts

Each layer of the grammar takes from a text what it takes from it when a comma or a closing parenthesis
follows, unless the text ends in a backslash that would escape the character behind it.  So lists can be
joined by commas and enclosed by a negation: their texts are read as before, and the lists are put together.
-/

namespace FlatTree.Selector

/-! ## Simple selectors and compounds -/

/-- What the reader takes from a text it takes in the same way when `more` follows the text. -/
def Reader.Extends {α : Type} (reader : Reader α) (more : List Char) : Prop :=
  ∀ ⦃text value rest⦄, endsInEscape text = false → reader.read text = .ok (value, rest) →
    reader.read (text ++ more) = .ok (value, rest ++ more) ∧ endsInEscape rest = false

/-- A list that the reader takes from the front of a text is taken in the same way when `more` follows the
text. -/
def Reader.ExtendsWithin (nested : Reader SelectorList) (more : List Char) : Prop :=
  ∀ ⦃text alternatives c rest⦄, endsInEscape text = false →
    nested.read text = .ok (alternatives, c :: rest) →
      nested.read (text ++ more) = .ok (alternatives, c :: rest ++ more) ∧
        endsInEscape (c :: rest) = false

theorem Reader.ExtendsWithin.readExclusion_append {nested : Reader SelectorList} {more : List Char}
    (hnested : nested.ExtendsWithin more)
    {text rest : List Char} {alternatives : SelectorList} (hclosed : endsInEscape text = false)
    (hread : readExclusion nested text = .ok (alternatives, rest)) :
    readExclusion nested (text ++ more) = .ok (alternatives, rest ++ more) ∧
      endsInEscape rest = false := by
  rw [readExclusion.eq_def] at hread
  split at hread
  · rename_i inside
    split at hread
    · cases hread
    · rename_i hlist
      cases hread
      rw [endsInEscape_cons (by decide)] at hclosed
      obtain ⟨hlist, hrest⟩ := hnested hclosed hlist
      rw [List.cons_append, readExclusion, hlist]
      rw [endsInEscape_cons (by decide)] at hrest
      exact ⟨rfl, hrest⟩
    · cases hread
  · cases hread

theorem Reader.Extends.many {α : Type} {item : Reader α} {more : List Char} (hitem : item.Extends more)
    {starts : Char → Bool} (hends : ∀ c ∈ more.head?, starts c = false) {text rest : List Char}
    {values : List α} (hclosed : endsInEscape text = false)
    (hread : item.many starts text = .ok (values, rest)) :
    item.many starts (text ++ more) = .ok (values, rest ++ more) ∧ endsInEscape rest = false := by
  fun_induction Reader.many item starts text generalizing values rest with
  | case1 =>
      cases hread
      refine ⟨?_, rfl⟩
      cases more with
      | nil => rw [List.append_nil, Reader.many]
      | cons c more => rw [List.nil_append, Reader.many, if_neg (Bool.eq_false_iff.mp (hends c rfl))]
  | case2 => cases hread
  | case3 => cases hread
  | case4 c text hstarts first behind hfirst others rest' hothers ih =>
      cases hread
      obtain ⟨hfirst, hbehind⟩ := hitem hclosed hfirst
      obtain ⟨hothers, hrest⟩ := ih hbehind hothers
      exact ⟨Reader.many_cons ⟨c, text ++ more, rfl, hstarts⟩ hfirst hothers, hrest⟩
  | case5 c text hstarts =>
      cases hread
      rw [List.cons_append, Reader.many, if_neg hstarts]
      exact ⟨rfl, hclosed⟩

section Layers

variable {nested : Reader SelectorList} {more : List Char} (hnested : nested.ExtendsWithin more)
  (hends : EndsChain more)

include hnested hends

theorem readPseudoClass_append {text rest : List Char} {simple : Simple}
    (hclosed : endsInEscape text = false) (hread : readPseudoClass nested text = .ok (simple, rest)) :
    readPseudoClass nested (text ++ more) = .ok (simple, rest ++ more) ∧
      endsInEscape rest = false := by
  rw [readPseudoClass] at hread ⊢
  split at hread
  · cases hread
  · rename_i name behind hname
    obtain ⟨hname, hbehind⟩ := hends.expectIdentifier_append hclosed hname
    rw [hname]
    dsimp only at hread ⊢
    split at hread
    · cases hread
    · obtain ⟨alternatives, rest', hlist, heq⟩ := ok_of_map_eq_ok hread
      obtain ⟨hlist, hrest⟩ := hnested.readExclusion_append hbehind hlist
      cases heq
      rw [hlist]
      exact ⟨rfl, hrest⟩
    · obtain ⟨nth, rest', hnth, heq⟩ := ok_of_map_eq_ok hread
      obtain ⟨hnth, hsame⟩ := readPosition_append hnth more
      cases heq
      rw [hnth, hsame]
      exact ⟨rfl, hbehind⟩
    · obtain ⟨nth, rest', hnth, heq⟩ := ok_of_map_eq_ok hread
      obtain ⟨hnth, hsame⟩ := readPosition_append hnth more
      cases heq
      rw [hnth, hsame]
      exact ⟨rfl, hbehind⟩
    · split at hread
      · cases hread
      · rename_i hparenthesis
        cases hread
        refine ⟨?_, hbehind⟩
        split
        · rename_i inside hcons
          cases rest with
          | nil =>
              rw [List.nil_append] at hcons
              rw [hcons] at hends
              exact absurd rfl hends.endsCompound.endsSimple.head_ne_parenthesis
          | cons c rest =>
              cases hcons
              exact absurd rfl (hparenthesis rest)
        · rfl

theorem simpleReader_extends : (simpleReader nested).Extends more := by
  intro text simple rest hclosed hread
  change readSimple nested text = .ok (simple, rest) at hread
  change readSimple nested (text ++ more) = .ok (simple, rest ++ more) ∧ endsInEscape rest = false
  rw [readSimple.eq_def] at hread
  split at hread
  · obtain ⟨name, behind, hname, heq⟩ := ok_of_map_eq_ok hread
    cases heq
    rw [endsInEscape_cons (by decide)] at hclosed
    obtain ⟨hname, hrest⟩ := hends.expectIdentifier_append hclosed hname
    rw [List.cons_append, readSimple, hname]
    exact ⟨rfl, hrest⟩
  · obtain ⟨name, behind, hname, heq⟩ := ok_of_map_eq_ok hread
    cases heq
    rw [endsInEscape_cons (by decide)] at hclosed
    obtain ⟨hname, hrest⟩ := hends.expectIdentifier_append hclosed hname
    rw [List.cons_append, readSimple, hname]
    exact ⟨rfl, hrest⟩
  · obtain ⟨test, behind, htest, heq⟩ := ok_of_map_eq_ok hread
    cases heq
    rw [endsInEscape_cons (by decide)] at hclosed
    obtain ⟨htest, hrest⟩ := hends.readInside_append hclosed htest
    rw [List.cons_append, readSimple, htest]
    exact ⟨rfl, hrest⟩
  · rw [endsInEscape_cons (by decide)] at hclosed
    exact readPseudoClass_append hnested hends hclosed hread
  · cases hread

theorem readSimples_append {text rest : List Char} {simple : Simple} {simples : Compound}
    (hclosed : endsInEscape text = false)
    (hread : readSimples nested text = .ok (simple :: simples, rest)) :
    readSimples nested (text ++ more) = .ok (simple :: simples, rest ++ more) ∧
      endsInEscape rest = false := by
  have hstarts : ∀ c ∈ more.head?, opensSimple c = false :=
    fun c hc => (not_isNamePart_of_closesCompound (hends.endsCompound c hc)).2.2.2
  have hmany {text rest : List Char} {simples : Compound} :=
    @(simpleReader_extends hnested hends).many _ _ _ _ hstarts text rest simples
  rw [readSimples.eq_def] at hread
  dsimp only at hread
  split at hread
  · cases hread
  · rename_i c text
    split at hread
    · rename_i hstar
      obtain ⟨others, behind, hothers, heq⟩ := ok_of_map_eq_ok hread
      cases heq
      rw [endsInEscape_cons (by rw [hstar]; decide)] at hclosed
      obtain ⟨hothers, hrest⟩ := hmany hclosed hothers
      rw [List.cons_append, readSimples, if_pos hstar, hothers]
      exact ⟨rfl, hrest⟩
    · rename_i hstar
      split at hread
      · rename_i hstart
        obtain ⟨others, behind, hothers, heq⟩ := ok_of_map_eq_ok hread
        cases heq
        have hname := hends.readIdentifier_append hclosed
        obtain ⟨hothers, hrest⟩ := hmany (endsInEscape_readIdentifier hclosed) hothers
        rw [List.cons_append] at hname ⊢
        rw [readSimples, if_neg hstar, if_pos hstart, hname]
        dsimp only
        rw [hothers]
        exact ⟨rfl, hrest⟩
      · rename_i hstart
        rw [List.cons_append, readSimples, if_neg hstar, if_neg hstart]
        exact hmany hclosed hread

theorem compoundReader_extends : (compoundReader nested).Extends more := by
  intro text compound rest hclosed hread
  change readCompound nested text = .ok (compound, rest) at hread
  change readCompound nested (text ++ more) = .ok (compound, rest ++ more) ∧ endsInEscape rest = false
  rw [readCompound] at hread ⊢
  split at hread
  · cases hread
  · cases hread
  · rename_i hsimples
    cases hread
    obtain ⟨hsimples, hrest⟩ := readSimples_append hnested hends hclosed hsimples
    rw [hsimples]
    exact ⟨rfl, hrest⟩

end Layers

/-! ## Chains and lists -/

theorem EndsChain.readCombinator_append {more : List Char} (hends : EndsChain more) {text rest : List Char}
    {combinator : Option Combinator} (hclosed : endsInEscape text = false)
    (hread : readCombinator text = .ok (combinator, rest)) :
    readCombinator (text ++ more) = .ok (combinator, rest ++ more) ∧ endsInEscape rest = false := by
  rw [← endsInEscape_trimAsciiStart] at hclosed
  cases htrim : Text.trimAsciiStart text with
  | nil =>
      -- nothing but blanks is left, so what follows the text decides, and it is no combinator
      rw [readCombinator, htrim] at hread
      cases hread
      have htext : Text.trimAsciiStart (text ++ more) = more := by
        rw [hends.trimAsciiStart_append, htrim, List.nil_append]
      have hjoined := readCombinator_of_endsChain (htext.symm ▸ hends)
      rw [htext] at hjoined
      exact ⟨hjoined, rfl⟩
  | cons c behind =>
      have hhead : (text ++ more).head? = text.head? := by
        cases text with
        | nil => cases htrim
        | cons => rfl
      have hbehind : c ≠ '\\' → endsInEscape (Text.trimAsciiStart behind) = false := by
        intro hslash
        rwa [htrim, endsInEscape_cons hslash, ← endsInEscape_trimAsciiStart] at hclosed
      rw [readCombinator, htrim] at hread
      rw [readCombinator, hends.trimAsciiStart_append, htrim, hhead]
      rw [htrim] at hclosed
      dsimp only [List.cons_append] at hread ⊢
      split_ifs at hread ⊢ with hend hchild hadjacent hgeneral hblank
      · cases hread
        exact ⟨rfl, hclosed⟩
      · cases hread
        exact ⟨by rw [hends.trimAsciiStart_append], hbehind (by rw [hchild]; decide)⟩
      · cases hread
        exact ⟨by rw [hends.trimAsciiStart_append], hbehind (by rw [hadjacent]; decide)⟩
      · cases hread
        exact ⟨by rw [hends.trimAsciiStart_append], hbehind (by rw [hgeneral]; decide)⟩
      · cases hread
        exact ⟨rfl, hclosed⟩

theorem chainReader_extends {compound : Reader Compound} {more : List Char}
    (hcompound : compound.Extends more) (hends : EndsChain more) :
    (chainReader compound).Extends more := by
  intro text chain rest hclosed hread
  change readChain compound text = .ok (chain, rest) at hread
  change readChain compound (text ++ more) = .ok (chain, rest ++ more) ∧ endsInEscape rest = false
  fun_induction readChain compound text generalizing chain rest with
  | case1 => cases hread
  | case2 => cases hread
  | case3 text first behind hfirst rest' hjoined =>
      cases hread
      obtain ⟨hfirst, hbehind⟩ := hcompound hclosed hfirst
      obtain ⟨hjoined, hrest⟩ := hends.readCombinator_append hbehind hjoined
      exact ⟨readChain_last hfirst hjoined, hrest⟩
  | case4 => cases hread
  | case5 text first behind hfirst combinator next hjoined others rest' hothers ih =>
      cases hread
      obtain ⟨hfirst, hbehind⟩ := hcompound hclosed hfirst
      obtain ⟨hjoined, hnext⟩ := hends.readCombinator_append hbehind hjoined
      obtain ⟨hothers, hrest⟩ := ih hnext hothers
      exact ⟨readChain_link hfirst hjoined hothers, hrest⟩

theorem readAlternatives_append {chain : Reader Complex} {more : List Char} (hchain : chain.Extends more)
    (hends : EndsChain more) {text rest : List Char} {alternatives : SelectorList}
    (hclosed : endsInEscape text = false)
    (hread : readAlternatives chain text = .ok (alternatives, rest))
    (hrest : rest ≠ [] ∨ EndsList more) :
    readAlternatives chain (text ++ more) = .ok (alternatives, rest ++ more) ∧
      endsInEscape rest = false := by
  fun_induction readAlternatives chain text generalizing alternatives rest with
  | case1 => cases hread
  | case2 => cases hread
  | case3 text first behind hfirst next hcomma others rest' hothers ih =>
      cases hread
      obtain ⟨hfirst, hbehind⟩ := hchain (by rwa [endsInEscape_trimAsciiStart]) hfirst
      rw [← endsInEscape_trimAsciiStart, hcomma, endsInEscape_cons (by decide)] at hbehind
      obtain ⟨hothers, hend⟩ := ih hbehind hothers hrest
      rw [← hends.trimAsciiStart_append] at hfirst
      refine ⟨readAlternatives_cons hfirst ?_ hothers, hend⟩
      rw [hends.trimAsciiStart_append, hcomma, List.cons_append]
  | case4 text first behind hfirst hnone =>
      cases hread
      obtain ⟨hfirst, hbehind⟩ := hchain (by rwa [endsInEscape_trimAsciiStart]) hfirst
      rw [← hends.trimAsciiStart_append] at hfirst
      rw [← hends.trimAsciiStart_append]
      refine ⟨readAlternatives_last hfirst fun next hcomma => ?_, ?_⟩
      · rw [hends.trimAsciiStart_append] at hcomma
        cases htrim : Text.trimAsciiStart behind with
        | nil =>
            rw [htrim, List.nil_append] at hcomma
            rcases hrest with hne | hlist
            · exact hne htrim
            · rw [hcomma] at hlist
              exact absurd (hlist ',' rfl) (by decide)
        | cons c behind' =>
            rw [htrim, List.cons_append] at hcomma
            cases hcomma
            exact hnone behind' htrim
      · rwa [endsInEscape_trimAsciiStart]

/-- Behind a comma the alternatives of another text go on. -/
theorem readAlternatives_append_comma {chain : Reader Complex} {next rest : List Char}
    (hchain : chain.Extends (',' :: next)) {others : SelectorList}
    (hothers : readAlternatives chain next = .ok (others, rest)) {text : List Char}
    {alternatives : SelectorList} (hclosed : endsInEscape text = false)
    (hread : readAlternatives chain text = .ok (alternatives, [])) :
    readAlternatives chain (text ++ ',' :: next) = .ok (alternatives ++ others, rest) := by
  have htrims := (endsChain_comma next).trimAsciiStart_append
  generalize hend : ([] : List Char) = behind at hread
  fun_induction readAlternatives chain text generalizing alternatives behind with
  | case1 => cases hread
  | case2 => cases hread
  | case3 text first behind hfirst after hcomma others' rest' hlist ih =>
      cases hread
      obtain ⟨hfirst, hbehind⟩ := hchain (by rwa [endsInEscape_trimAsciiStart]) hfirst
      rw [← endsInEscape_trimAsciiStart, hcomma, endsInEscape_cons (by decide)] at hbehind
      rw [← htrims] at hfirst
      refine readAlternatives_cons hfirst ?_ (ih hbehind _ hend hlist)
      rw [htrims, hcomma, List.cons_append]
  | case4 text first behind hfirst hnone =>
      cases hread
      obtain ⟨hfirst, -⟩ := hchain (by rwa [endsInEscape_trimAsciiStart]) hfirst
      rw [← htrims] at hfirst
      refine readAlternatives_cons hfirst ?_ hothers
      rw [htrims, ← hend, List.nil_append]

theorem extendsWithin_listReader {more : List Char} (hends : EndsChain more) (limit levels : Nat) :
    (listReader limit levels).ExtendsWithin more := by
  induction levels with
  | zero => exact fun _ _ _ _ _ hread => nomatch hread
  | succ levels ih =>
      intro text alternatives c rest hclosed hread
      exact readAlternatives_append (chainReader_extends (compoundReader_extends ih hends) hends) hends
        hclosed hread (.inl (List.cons_ne_nil c rest))

/-- The text of a negation around the text of a list. -/
def negated (text : List Char) : List Char :=
  ':' :: (['n', 'o', 't'] ++ '(' :: (text ++ [')']))

/-- The list in a negation is read on one level less. -/
theorem readAlternatives_negated {nested : Reader SelectorList} {text : List Char}
    {alternatives : SelectorList} (hlist : nested.read (text ++ [')']) = .ok (alternatives, [')'])) :
    readAlternatives (chainReader (compoundReader nested)) (negated text) =
      .ok ([.last [.not alternatives]], []) := by
  have hkeyword : SpellsKeyword "not" ['n', 'o', 't'] := by
    refine ⟨['n', 'o', 't'], rfl, spellsChars_of_plain (List.all_eq_true.mp rfl), ?_⟩
    intro c hc
    cases hc
    decide
  have hsimple : readSimple nested (negated text) = .ok (.not alternatives, []) := by
    rw [negated, readSimple_with_argument hkeyword (by decide) rfl]
    simp only [readExclusion, hlist, Except.map]
  have hmany : (simpleReader nested).many opensSimple (negated text) = .ok ([.not alternatives], []) :=
    Reader.many_cons ⟨':', _, rfl, rfl⟩ hsimple (by rw [Reader.many])
  have hcompound : readCompound nested (negated text) = .ok ([.not alternatives], []) := by
    rw [negated] at hmany ⊢
    rw [readCompound, readSimples, if_neg (by decide), if_neg (by decide), hmany]
  have hchain : (chainReader (compoundReader nested)).read (Text.trimAsciiStart (negated text)) =
      .ok (.last [.not alternatives], []) := by
    rw [negated, trimAsciiStart_cons (by decide)]
    exact readChain_last hcompound rfl
  refine readAlternatives_last hchain fun next hcomma => ?_
  cases hcomma

namespace SelectorList

theorem parseWithin_eq_ok_iff {limit : Nat} {text : String} {alternatives : SelectorList} :
    parseWithin limit text = .ok alternatives ↔
      ofChars (min limit greatestLimit) text.toList = .ok alternatives := by
  constructor
  · exact ofChars_of_parseWithin
  · intro hread
    rw [parseWithin, hread]
    rfl

/-- A text that parses is not blank, and a list is all that it holds. -/
theorem ofChars_eq_ok_iff {limit : Nat} {text : List Char} {alternatives : SelectorList} :
    ofChars limit text = .ok alternatives ↔
      text.all Text.isAsciiBlank = false ∧
        (listReader limit (limit + 1)).read text = .ok (alternatives, []) := by
  rw [ofChars]
  split
  · rename_i hblank
    simp [hblank]
  · rename_i hblank
    rw [Bool.not_eq_true] at hblank
    rw [and_iff_right hblank]
    split
    all_goals simp_all

theorem ofChars_append_comma {limit : Nat} {text other : List Char} {list others : SelectorList}
    (hclosed : endsInEscape text = false) (hread : ofChars limit text = .ok list)
    (hother : ofChars limit other = .ok others) :
    ofChars limit (text ++ ',' :: other) = .ok (list ++ others) := by
  rw [ofChars_eq_ok_iff] at hread hother ⊢
  have hends := endsChain_comma other
  refine ⟨by simp [hread.1], readAlternatives_append_comma ?_ hother.2 hclosed hread.2⟩
  exact chainReader_extends (compoundReader_extends (extendsWithin_listReader hends limit limit) hends) hends

theorem ofChars_negated {limit : Nat} {text : List Char} {list : SelectorList}
    (hclosed : endsInEscape text = false) (hread : ofChars limit text = .ok list) :
    ofChars (limit + 1) (negated text) = .ok [.last [.not list]] := by
  rw [ofChars_eq_ok_iff] at hread ⊢
  refine ⟨rfl, readAlternatives_negated ?_⟩
  have hparenthesis : EndsList [')'] := by
    intro c hc
    cases hc
    rfl
  have hends := hparenthesis.endsChain
  have hlist : (listReader (limit + 1) (limit + 1)).read text = .ok (list, []) := by
    rcases listReader_narrows limit (limit + 1) (Nat.le_refl (limit + 1)) text with hsame | hdeep
    · rw [← hsame, hread.2]
    · rw [hdeep] at hread
      cases hread.2
  exact (readAlternatives_append (chainReader_extends
    (compoundReader_extends (extendsWithin_listReader hends (limit + 1) limit) hends) hends) hends hclosed
    hlist (.inr hparenthesis)).1

/-- Lists can be put together as texts.  Where a text parses, and does not end in a backslash that would
escape what follows, a comma and another text that parses may follow it, which adds the alternatives of the
other one; and one level of nesting more admits the negation of the list. -/
theorem parseWithin_comma_and_not {limit : Nat} (hlimit : limit < greatestLimit) {text : String}
    {list : SelectorList} (hparse : parseWithin limit text = .ok list)
    (hclosed : endsInEscape text.toList = false) :
    (∀ other others, parseWithin limit other = .ok others →
      parseWithin limit (text ++ "," ++ other) = .ok (list ++ others)) ∧
    parseWithin (limit + 1) (":not(" ++ text ++ ")") = .ok [.last [.not list]] := by
  rw [parseWithin_eq_ok_iff] at hparse
  constructor
  · intro other others hother
    rw [parseWithin_eq_ok_iff] at hother ⊢
    have htext : (text ++ "," ++ other).toList = text.toList ++ ',' :: other.toList := by
      simp
    rw [htext]
    exact ofChars_append_comma hclosed hparse hother
  · rw [Nat.min_eq_left hlimit.le] at hparse
    rw [parseWithin_eq_ok_iff, Nat.min_eq_left hlimit]
    have htext : (":not(" ++ text ++ ")").toList = negated text.toList := by
      simp [negated]
    rw [htext]
    exact ofChars_negated hclosed hparse

/-- A comma and parentheses in a value, an argument that is looked through for its parenthesis, and at the end
of the first text a code point that would take a blank behind it. -/
theorem parseWithin_comma_and_not_marks :
    let text := "p[a='),']:nth-child( 2n+1 ) > q\\2c"
    let other := " :not(b\\)),c\\29 "
    let list : SelectorList :=
      [.link [.feature (.type "p"), .feature (.hasAttribute ⟨"a", some (.equals, "),")⟩),
        .feature (.nthChild .odd)] .child (.last [.feature (.type "q,")])]
    let others : SelectorList :=
      [.last [.not [.last [.feature (.type "b)")]]], .last [.feature (.type "c)")]]
    1 < greatestLimit ∧ parseWithin 1 text = .ok list ∧ endsInEscape text.toList = false ∧
      parseWithin 1 other = .ok others ∧ parseWithin 1 (text ++ "," ++ other) = .ok (list ++ others) ∧
      parseWithin (1 + 1) (":not(" ++ text ++ ")") = .ok [.last [.not list]] := by
  intro text other list others
  have hlimit : 1 < greatestLimit := by decide
  have hparse : parseWithin 1 text = .ok list := by decide +kernel
  have hclosed : endsInEscape text.toList = false := by decide +kernel
  have hother : parseWithin 1 other = .ok others := by decide +kernel
  obtain ⟨hcomma, hnot⟩ := parseWithin_comma_and_not hlimit hparse hclosed
  exact ⟨hlimit, hparse, hclosed, hother, hcomma other others hother, hnot⟩

/-- A backslash at the end stands for a character of its own, and in front of a comma for the comma. -/
example :
    parseWithin 1 "a\\" = .ok [.last [.feature (.type "a\uFFFD")]] ∧
      parseWithin 1 "a\\,b" = .ok [.last [.feature (.type "a,b")]] := by
  decide +kernel

end SelectorList

end FlatTree.Selector
