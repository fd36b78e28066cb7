import FlatTree.Proofs.Selector.RoundTrip
import FlatTree.Proofs.Text.Case

/-!
# Parsed selectors are well formed

Whatever text a selector list is read from, the list is well formed and no deeper than the limit allows.
Each layer of the grammar keeps what the layer below it yields, and the list of a negation is one level
less deep than the list that it stands in.  Hence the lists that parse at a limit are exactly the
well-formed ones whose depth does not exceed it.
-/

namespace FlatTree.Selector

/-- Every value that the reader takes from any text has the property. -/
def Reader.Yields {α : Type} (reader : Reader α) (property : α → Prop) : Prop :=
  ∀ ⦃text value rest⦄, reader.read text = .ok (value, rest) → property value

theorem Reader.Yields.of_mem_many {α : Type} {item : Reader α} {property : α → Prop}
    (hitem : item.Yields property) {starts : Char → Bool} {text rest : List Char} {values : List α}
    (hread : item.many starts text = .ok (values, rest)) {value : α} (hvalue : value ∈ values) :
    property value := by
  fun_induction Reader.many item starts text generalizing values rest with
  | case1 =>
      cases hread
      cases hvalue
  | case2 => cases hread
  | case3 => cases hread
  | case4 c more _ first behind hfirst others rest' hothers ih =>
      cases hread
      rcases List.mem_cons.mp hvalue with rfl | hother
      · exact hitem hfirst
      · exact ih hothers hother
  | case5 =>
      cases hread
      cases hvalue

/-! ## Names -/

/-- What starts a name is part of one, unless it opens an escape. -/
theorem isNamePart_of_isNameStart {c : Char} (hstart : isNameStart c = true) (hslash : c ≠ '\\') :
    isNamePart c = true := by
  simp only [isNameStart, isNamePart, Char.isAlphanum, hslash, decide_false, Bool.or_false,
    Bool.or_eq_true, decide_eq_true_eq] at hstart ⊢
  rcases hstart with ((halpha | hdash) | hscore) | hascii
  · exact .inl (.inl (.inl (.inl halpha)))
  · exact .inl (.inl (.inr hdash))
  · exact .inl (.inr hscore)
  · exact .inr hascii

theorem readIdentifier_ne_nil {c : Char} (hstart : isNameStart c = true) (rest : List Char) :
    (readIdentifier (c :: rest)).1 ≠ [] := by
  rw [readIdentifier]
  split
  · exact List.cons_ne_nil _ _
  · rename_i hslash
    rw [if_pos (isNamePart_of_isNameStart hstart hslash)]
    exact List.cons_ne_nil _ _

theorem expectIdentifier_ne_nil {text name rest : List Char}
    (hread : expectIdentifier text = .ok (name, rest)) : name ≠ [] := by
  rw [expectIdentifier.eq_def] at hread
  split at hread
  · cases hread
  · split at hread
    · rename_i c more hstart
      have hne := readIdentifier_ne_nil hstart more
      rw [Except.ok.inj hread] at hne
      exact hne
    · cases hread

/-- The name of a parsed attribute test has been lowered. -/
theorem AttributeTest.readInside_wellFormed {opening text rest : List Char} {test : AttributeTest}
    (hread : readInside opening text = .ok (test, rest)) :
    (Feature.hasAttribute test).WellFormed := by
  have hlowered : ∀ {name : List Char}, ¬ name.isEmpty = true →
      String.ofList (Text.asciiLower name) ≠ "" ∧
        ∀ c ∈ (String.ofList (Text.asciiLower name)).toList, c.isUpper = false := by
    intro name hname
    refine ⟨?_, ?_⟩
    · rw [ne_eq, String.ofList_eq_empty_iff, Text.asciiLower, List.map_eq_nil_iff, ← List.isEmpty_iff]
      exact hname
    · rw [String.toList_ofList]
      exact fun c => Text.isUpper_of_mem_asciiLower
  rw [readInside] at hread
  split at hread
  · cases hread
  · rename_i hname
    split at hread
    · cases hread
    · cases hread
      exact hlowered hname
    · split at hread
      · cases hread
      · split at hread
        · cases hread
        · split at hread
          · cases hread
          · cases hread
            exact hlowered hname

/-! ## Simple selectors -/

/-- A reader of lists that yields well-formed lists of less than some depth. -/
def YieldsLists (nested : Reader SelectorList) (levels : Nat) : Prop :=
  nested.Yields fun alternatives => alternatives.WellFormed ∧ alternatives.depth < levels

/-- A simple selector that may continue a compound on so many levels. -/
structure Simple.Continues (levels : Nat) (simple : Simple) : Prop where
  wellFormed : wellFormedSimple simple
  not_onlyFirst : ¬ simple.OnlyFirst
  depth_le : depthSimple simple ≤ levels

variable {nested : Reader SelectorList} {levels : Nat}

theorem readExclusion_yields (hnested : YieldsLists nested levels) {text rest : List Char}
    {alternatives : SelectorList} (hread : readExclusion nested text = .ok (alternatives, rest)) :
    alternatives.WellFormed ∧ alternatives.depth < levels := by
  rw [readExclusion.eq_def] at hread
  split at hread
  · split at hread
    · cases hread
    · rename_i hlist
      cases hread
      exact hnested hlist
    · cases hread
  · cases hread

theorem PseudoClass.continues_of_named? {name : String} {feature : Feature}
    (hnamed : named? name = some (.simple feature)) (levels : Nat) :
    (Simple.feature feature).Continues levels := by
  rw [named?.eq_def] at hnamed
  split at hnamed
  all_goals cases hnamed
  all_goals exact ⟨trivial, id, Nat.zero_le levels⟩

theorem readPseudoClass_yields (hnested : YieldsLists nested levels) {text rest : List Char}
    {simple : Simple} (hread : readPseudoClass nested text = .ok (simple, rest)) :
    simple.Continues levels := by
  rw [readPseudoClass] at hread
  split at hread
  · cases hread
  · dsimp only at hread
    split at hread
    · cases hread
    · obtain ⟨alternatives, behind, hlist, hfound⟩ := ok_of_map_eq_ok hread
      obtain ⟨hwf, hdepth⟩ := readExclusion_yields hnested hlist
      cases hfound
      exact ⟨hwf, id, hdepth⟩
    · obtain ⟨nth, behind, -, hfound⟩ := ok_of_map_eq_ok hread
      cases hfound
      exact ⟨trivial, id, Nat.zero_le levels⟩
    · obtain ⟨nth, behind, -, hfound⟩ := ok_of_map_eq_ok hread
      cases hfound
      exact ⟨trivial, id, Nat.zero_le levels⟩
    · rename_i hnamed
      split at hread
      · cases hread
      · cases hread
        exact PseudoClass.continues_of_named? hnamed levels

theorem simpleReader_yields (hnested : YieldsLists nested levels) :
    (simpleReader nested).Yields (Simple.Continues levels) := by
  intro text simple rest hread
  change readSimple nested text = .ok (simple, rest) at hread
  rw [readSimple.eq_def] at hread
  split at hread
  · obtain ⟨name, behind, hname, hfound⟩ := ok_of_map_eq_ok hread
    cases hfound
    exact ⟨mt String.ofList_eq_empty_iff.mp (expectIdentifier_ne_nil hname), id, Nat.zero_le levels⟩
  · obtain ⟨name, behind, hname, hfound⟩ := ok_of_map_eq_ok hread
    cases hfound
    exact ⟨mt String.ofList_eq_empty_iff.mp (expectIdentifier_ne_nil hname), id, Nat.zero_le levels⟩
  · obtain ⟨test, behind, htest, hfound⟩ := ok_of_map_eq_ok hread
    cases hfound
    exact ⟨AttributeTest.readInside_wellFormed htest, id, Nat.zero_le levels⟩
  · exact readPseudoClass_yields hnested hread
  · cases hread

/-! ## Compounds -/

theorem wellFormedSimples_iff {simples : Compound} :
    wellFormedSimples simples ↔ ∀ simple ∈ simples, wellFormedSimple simple := by
  induction simples with
  | nil => simp [wellFormedSimples]
  | cons simple simples ih => rw [wellFormedSimples, List.forall_mem_cons, ih]

theorem depthSimples_le_iff {simples : Compound} :
    depthSimples simples ≤ levels ↔ ∀ simple ∈ simples, depthSimple simple ≤ levels := by
  induction simples with
  | nil => simp [depthSimples]
  | cons simple simples ih => rw [depthSimples, Nat.max_le, List.forall_mem_cons, ih]

/-- A compound of a first simple selector and others that may stand behind it. -/
theorem Compound.wellFormed_cons {first : Simple} {others : Compound}
    (hwf : wellFormedSimple first) (hdepth : depthSimple first ≤ levels)
    (hothers : ∀ simple ∈ others, simple.Continues levels) :
    Compound.WellFormed (first :: others) ∧ depthSimples (first :: others) ≤ levels := by
  constructor
  · refine ⟨List.cons_ne_nil _ _, fun simple hsimple => (hothers simple hsimple).not_onlyFirst, ?_⟩
    rw [wellFormedSimples_iff, List.forall_mem_cons]
    exact ⟨hwf, fun simple hsimple => (hothers simple hsimple).wellFormed⟩
  · rw [depthSimples_le_iff, List.forall_mem_cons]
    exact ⟨hdepth, fun simple hsimple => (hothers simple hsimple).depth_le⟩

theorem readSimples_yields (hnested : YieldsLists nested levels) {text rest : List Char}
    {simple : Simple} {simples : Compound}
    (hread : readSimples nested text = .ok (simple :: simples, rest)) :
    Compound.WellFormed (simple :: simples) ∧ depthSimples (simple :: simples) ≤ levels := by
  have hyields := simpleReader_yields hnested
  rw [readSimples.eq_def] at hread
  dsimp only at hread
  split at hread
  · cases hread
  · rename_i c more
    split at hread
    · obtain ⟨others, behind, hothers, hfound⟩ := ok_of_map_eq_ok hread
      cases hfound
      exact Compound.wellFormed_cons trivial (Nat.zero_le levels)
        fun _ => hyields.of_mem_many hothers
    · split at hread
      · rename_i hstart
        obtain ⟨others, behind, hothers, hfound⟩ := ok_of_map_eq_ok hread
        cases hfound
        exact Compound.wellFormed_cons
          (mt String.ofList_eq_empty_iff.mp (readIdentifier_ne_nil hstart more)) (Nat.zero_le levels)
          fun _ => hyields.of_mem_many hothers
      · have hfirst := hyields.of_mem_many hread List.mem_cons_self
        exact Compound.wellFormed_cons hfirst.wellFormed hfirst.depth_le
          fun _ hother => hyields.of_mem_many hread (List.mem_cons_of_mem _ hother)

theorem compoundReader_yields (hnested : YieldsLists nested levels) :
    (compoundReader nested).Yields fun compound =>
      compound.WellFormed ∧ depthSimples compound ≤ levels := by
  intro text compound rest hread
  change readCompound nested text = .ok (compound, rest) at hread
  rw [readCompound.eq_def] at hread
  split at hread
  · cases hread
  · cases hread
  · rename_i hsimples
    cases hread
    exact readSimples_yields hnested hsimples

/-! ## Chains and lists -/

theorem chainReader_yields (hnested : YieldsLists nested levels) :
    (chainReader (compoundReader nested)).Yields fun chain =>
      wellFormedChain chain ∧ depthChain chain ≤ levels := by
  intro text chain rest hread
  change readChain (compoundReader nested) text = .ok (chain, rest) at hread
  fun_induction readChain (compoundReader nested) text generalizing chain rest with
  | case1 => cases hread
  | case2 => cases hread
  | case3 text first behind hfirst _ _ =>
      cases hread
      obtain ⟨hwf, hdepth⟩ := compoundReader_yields hnested hfirst
      exact ⟨⟨hwf.ne_nil, hwf.not_onlyFirst, hwf.simples⟩, hdepth⟩
  | case4 => cases hread
  | case5 text first behind hfirst combinator next _ others rest' hothers ih =>
      cases hread
      obtain ⟨hwf, hdepth⟩ := compoundReader_yields hnested hfirst
      obtain ⟨hrest, hdepths⟩ := ih hothers
      exact ⟨⟨⟨hwf.ne_nil, hwf.not_onlyFirst, hwf.simples⟩, hrest⟩, Nat.max_le.mpr ⟨hdepth, hdepths⟩⟩

theorem alternativesReader_yields (hnested : YieldsLists nested levels) :
    YieldsLists (alternativesReader (chainReader (compoundReader nested))) (levels + 1) := by
  intro text alternatives rest hread
  change readAlternatives (chainReader (compoundReader nested)) text = .ok (alternatives, rest)
    at hread
  fun_induction readAlternatives (chainReader (compoundReader nested)) text
    generalizing alternatives rest with
  | case1 => cases hread
  | case2 => cases hread
  | case3 text first behind hfirst next _ others rest' hothers ih =>
      cases hread
      obtain ⟨hwf, hdepth⟩ := chainReader_yields hnested hfirst
      obtain ⟨⟨-, hrest⟩, hdepths⟩ := ih hothers
      exact ⟨⟨List.cons_ne_nil _ _, hwf, hrest⟩, Nat.max_lt.mpr ⟨Nat.lt_succ_of_le hdepth, hdepths⟩⟩
  | case4 text first behind hfirst =>
      cases hread
      obtain ⟨hwf, hdepth⟩ := chainReader_yields hnested hfirst
      refine ⟨⟨List.cons_ne_nil _ _, hwf, trivial⟩, ?_⟩
      exact Nat.max_lt.mpr ⟨Nat.lt_succ_of_le hdepth, Nat.succ_pos levels⟩

/-- A reader on so many levels yields lists whose depth is less. -/
theorem yieldsLists_listReader (limit levels : Nat) : YieldsLists (listReader limit levels) levels := by
  induction levels with
  | zero =>
      intro text alternatives rest hread
      cases hread
  | succ levels ih => exact alternativesReader_yields ih

namespace SelectorList

theorem wellFormed_of_ofChars {limit : Nat} {text : List Char} {alternatives : SelectorList}
    (hread : ofChars limit text = .ok alternatives) :
    alternatives.WellFormed ∧ alternatives.depth ≤ limit := by
  rw [ofChars] at hread
  split at hread
  · cases hread
  · split at hread
    · cases hread
    · rename_i hlist
      cases hread
      obtain ⟨hwf, hdepth⟩ := yieldsLists_listReader limit (limit + 1) hlist
      exact ⟨hwf, Nat.le_of_lt_succ hdepth⟩
    · cases hread

theorem ofChars_of_parseWithin {limit : Nat} {text : String} {alternatives : SelectorList}
    (hparse : parseWithin limit text = .ok alternatives) :
    ofChars (min limit greatestLimit) text.toList = .ok alternatives := by
  rw [parseWithin] at hparse
  cases hread : ofChars (min limit greatestLimit) text.toList with
  | error fault =>
      rw [hread] at hparse
      cases hparse
  | ok found =>
      rw [hread] at hparse
      cases hparse
      rfl

/-- What parses at a limit is well formed, and no deeper than the limit and the greatest limit allow. -/
theorem wellFormed_of_parseWithin {limit : Nat} {text : String} {alternatives : SelectorList}
    (hparse : parseWithin limit text = .ok alternatives) :
    alternatives.WellFormed ∧ alternatives.depth ≤ min limit greatestLimit :=
  wellFormed_of_ofChars (ofChars_of_parseWithin hparse)

/-- An attribute name in upper case, names that consist of escapes, a negation inside another one, and a
backslash with nothing behind it. -/
theorem wellFormed_of_parseWithin_escapes :
    let text := "*[ A\\42 ^='x' ]:not( .b\n, :Not(#\\31 ) ) > \\"
    let list : SelectorList :=
      [.link [.feature .universal, .feature (.hasAttribute ⟨"ab", some (.starts, "x")⟩),
          .not [.last [.feature (.hasClass "b")], .last [.not [.last [.feature (.hasId "1")]]]]] .child
        (.last [.feature (.type "\uFFFD")])]
    parseWithin 2 text = .ok list ∧ list.WellFormed ∧ list.depth ≤ min 2 greatestLimit := by
  intro text list
  have hparse : parseWithin 2 text = .ok list := by decide +kernel
  exact ⟨hparse, wellFormed_of_parseWithin hparse⟩

/-- The lists that parse at a limit are the well-formed ones that are not too deep for it. -/
theorem exists_parseWithin_iff (limit : Nat) (alternatives : SelectorList) :
    (∃ text, parseWithin limit text = .ok alternatives) ↔
      alternatives.WellFormed ∧ alternatives.depth ≤ min limit greatestLimit := by
  constructor
  · rintro ⟨text, hparse⟩
    exact wellFormed_of_ofChars (ofChars_of_parseWithin hparse)
  · rintro ⟨hwf, hdepth⟩
    refine ⟨alternatives.toText, ?_⟩
    rw [parseWithin, toText, String.toList_ofList, ofChars_renderAlternatives hwf hdepth]
    rfl

end SelectorList

end FlatTree.Selector
