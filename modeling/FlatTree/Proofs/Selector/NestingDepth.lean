import FlatTree.Proofs.Selector.NestingLimit
import FlatTree.Proofs.Selector.ParsedForms

/-!
# Depth decides what a nesting limit rejects

A reader of lists with fewer levels than another one still reads every list whose depth is less than its
levels.  The layers of the grammar hand this on from the list of a negation to the list that the negation
stands in, whose depth is one more.  So of what parses at some limit a lower limit keeps the lists that are
not deeper than it, and rejects the others as nested too deeply.
-/

namespace FlatTree.Selector

/-- Every value of a kind that the reader `wide` takes from a text, `narrow` takes from it too. -/
def Reader.Keeps {α : Type} (kind : α → Prop) (narrow wide : Reader α) : Prop :=
  ∀ ⦃text value rest⦄, wide.read text = .ok (value, rest) → kind value →
    narrow.read text = .ok (value, rest)

theorem Reader.Keeps.many {α : Type} {kind : α → Prop} {narrow wide : Reader α}
    (hitem : narrow.Keeps kind wide) {starts : Char → Bool} {text rest : List Char} {values : List α}
    (hread : wide.many starts text = .ok (values, rest)) (hkind : ∀ value ∈ values, kind value) :
    narrow.many starts text = .ok (values, rest) := by
  fun_induction Reader.many wide starts text generalizing values rest with
  | case1 =>
      rw [Reader.many]
      exact hread
  | case2 => cases hread
  | case3 => cases hread
  | case4 c more hstarts first behind hfirst others rest' hothers ih =>
      cases hread
      rw [List.forall_mem_cons] at hkind
      exact Reader.many_cons ⟨c, more, rfl, hstarts⟩ (hitem hfirst hkind.1) (ih hothers hkind.2)
  | case5 c more hends =>
      rw [Reader.many, if_neg hends]
      exact hread

/-! ## Simple selectors and compounds -/

section Layers

variable {narrow wide : Reader SelectorList} {levels : Nat}
  (hnested : Reader.Keeps (fun alternatives => alternatives.depth < levels) narrow wide)

include hnested

theorem readExclusion_keeps {text rest : List Char} {alternatives : SelectorList}
    (hread : readExclusion wide text = .ok (alternatives, rest)) (hdepth : alternatives.depth < levels) :
    readExclusion narrow text = .ok (alternatives, rest) := by
  rw [readExclusion.eq_def] at hread ⊢
  split at hread
  · split at hread
    · cases hread
    · rename_i hlist
      cases hread
      simp only [hnested hlist hdepth]
    · cases hread
  · cases hread

theorem readPseudoClass_keeps {text rest : List Char} {simple : Simple}
    (hread : readPseudoClass wide text = .ok (simple, rest)) (hdepth : depthSimple simple ≤ levels) :
    readPseudoClass narrow text = .ok (simple, rest) := by
  rw [readPseudoClass] at hread ⊢
  split at hread
  · cases hread
  · dsimp only at hread ⊢
    split at hread
    · cases hread
    · obtain ⟨alternatives, behind, hlist, hfound⟩ := ok_of_map_eq_ok hread
      cases hfound
      rw [readExclusion_keeps hnested hlist hdepth]
      rfl
    · exact hread
    · exact hread
    · exact hread

theorem simpleReader_keeps :
    (simpleReader narrow).Keeps (fun simple => depthSimple simple ≤ levels) (simpleReader wide) := by
  intro text simple rest hread hdepth
  change readSimple wide text = .ok (simple, rest) at hread
  change readSimple narrow text = .ok (simple, rest)
  rw [readSimple.eq_def] at hread ⊢
  split at hread
  · exact hread
  · exact hread
  · exact hread
  · exact readPseudoClass_keeps hnested hread hdepth
  · cases hread

theorem readSimples_keeps {text rest : List Char} {simples : Compound}
    (hread : readSimples wide text = .ok (simples, rest)) (hdepth : depthSimples simples ≤ levels) :
    readSimples narrow text = .ok (simples, rest) := by
  have hitem := simpleReader_keeps hnested
  rw [depthSimples_le_iff] at hdepth
  rw [readSimples.eq_def] at hread ⊢
  dsimp only at hread ⊢
  split at hread
  · exact hread
  · split at hread
    · rename_i hstar
      obtain ⟨others, behind, hothers, hfound⟩ := ok_of_map_eq_ok hread
      cases hfound
      rw [if_pos hstar, hitem.many hothers (List.forall_mem_cons.mp hdepth).2]
      rfl
    · rename_i hstar
      split at hread
      · rename_i hstart
        obtain ⟨others, behind, hothers, hfound⟩ := ok_of_map_eq_ok hread
        cases hfound
        rw [if_neg hstar, if_pos hstart, hitem.many hothers (List.forall_mem_cons.mp hdepth).2]
        rfl
      · rename_i hstart
        rw [if_neg hstar, if_neg hstart, hitem.many hread hdepth]

theorem compoundReader_keeps :
    (compoundReader narrow).Keeps (fun compound => depthSimples compound ≤ levels)
      (compoundReader wide) := by
  intro text compound rest hread hdepth
  change readCompound wide text = .ok (compound, rest) at hread
  change readCompound narrow text = .ok (compound, rest)
  rw [readCompound] at hread ⊢
  split at hread
  · cases hread
  · cases hread
  · rename_i hsimples
    cases hread
    rw [readSimples_keeps hnested hsimples hdepth]

/-! ## Chains and lists -/

theorem chainReader_keeps :
    (chainReader (compoundReader narrow)).Keeps (fun chain => depthChain chain ≤ levels)
      (chainReader (compoundReader wide)) := by
  intro text chain rest hread hdepth
  change readChain (compoundReader wide) text = .ok (chain, rest) at hread
  change readChain (compoundReader narrow) text = .ok (chain, rest)
  fun_induction readChain (compoundReader wide) text generalizing chain rest with
  | case1 => cases hread
  | case2 => cases hread
  | case3 text first behind hfirst rest' hjoined =>
      cases hread
      exact readChain_last (compoundReader_keeps hnested hfirst hdepth) hjoined
  | case4 => cases hread
  | case5 text first behind hfirst combinator next hjoined others rest' hothers ih =>
      cases hread
      rw [depthChain, Nat.max_le] at hdepth
      exact readChain_link (compoundReader_keeps hnested hfirst hdepth.1) hjoined
        (ih hdepth.2 hothers)

theorem alternativesReader_keeps :
    (alternativesReader (chainReader (compoundReader narrow))).Keeps
      (fun alternatives => alternatives.depth < levels + 1)
      (alternativesReader (chainReader (compoundReader wide))) := by
  intro text alternatives rest hread hdepth
  rw [Nat.lt_succ_iff] at hdepth
  change readAlternatives (chainReader (compoundReader wide)) text = .ok (alternatives, rest) at hread
  change readAlternatives (chainReader (compoundReader narrow)) text = .ok (alternatives, rest)
  fun_induction readAlternatives (chainReader (compoundReader wide)) text
    generalizing alternatives rest with
  | case1 => cases hread
  | case2 => cases hread
  | case3 text first behind hfirst next hcomma others rest' hothers ih =>
      cases hread
      rw [SelectorList.depth, depthAlternatives, Nat.max_le] at hdepth
      exact readAlternatives_cons (chainReader_keeps hnested hfirst hdepth.1) hcomma (ih hdepth.2 hothers)
  | case4 text first behind hfirst hnone =>
      cases hread
      rw [SelectorList.depth, depthAlternatives, Nat.max_le] at hdepth
      exact readAlternatives_last (chainReader_keeps hnested hfirst hdepth.1) hnone

end Layers

/-- Fewer levels are enough for the lists whose depth is less. -/
theorem listReader_keeps (limit other : Nat) {levels more : Nat} (hle : levels ≤ more) :
    (listReader limit levels).Keeps (fun alternatives => alternatives.depth < levels)
      (listReader other more) := by
  induction levels generalizing more with
  | zero =>
      intro text alternatives rest _ hdepth
      exact absurd hdepth (Nat.not_lt_zero _)
  | succ levels ih =>
      obtain ⟨more, rfl⟩ := Nat.exists_eq_add_one_of_ne_zero (Nat.ne_of_gt (Nat.lt_of_lt_of_le
        (Nat.succ_pos levels) hle))
      exact alternativesReader_keeps (ih (Nat.le_of_succ_le_succ hle))

namespace SelectorList

theorem ofChars_of_depth_le {limit other : Nat} (hle : limit ≤ other) {text : List Char}
    {alternatives : SelectorList} (hread : ofChars other text = .ok alternatives)
    (hdepth : alternatives.depth ≤ limit) : ofChars limit text = .ok alternatives := by
  rw [ofChars] at hread ⊢
  split at hread
  · cases hread
  · rename_i hblank
    split at hread
    · cases hread
    · rename_i hlist
      cases hread
      rw [if_neg hblank, listReader_keeps limit other (Nat.succ_le_succ hle) hlist
        (Nat.lt_succ_of_le hdepth)]
    · cases hread

theorem parseWithin_greatestLimit {limit : Nat} (hle : greatestLimit ≤ limit) (text : String) :
    parseWithin limit text = parseWithin greatestLimit text := by
  rw [parseWithin, parseWithin, Nat.min_eq_right hle, Nat.min_self]

/-- A lower limit gives the same parse or rejects the text as nested too deeply, and of what parses at the
higher limit it keeps exactly what is not deeper than itself.  Limits beyond the greatest one count as that
one. -/
theorem parseWithin_of_limit_le (text : String) {limit other : Nat} (hle : limit ≤ other) :
    (parseWithin limit text = parseWithin other text ∨
      parseWithin limit text = .error (.tooDeep (min limit greatestLimit))) ∧
    (∀ list, parseWithin other text = .ok list →
      (parseWithin limit text = .ok list ↔ list.depth ≤ min limit greatestLimit)) ∧
    (greatestLimit ≤ limit → parseWithin limit text = parseWithin greatestLimit text) := by
  have hlimits : min limit greatestLimit ≤ min other greatestLimit :=
    Nat.le_min.mpr ⟨Nat.le_trans (Nat.min_le_left _ _) hle, Nat.min_le_right _ _⟩
  refine ⟨parseWithin_sameUnlessDeep hle text, ?_, fun hgreatest => parseWithin_greatestLimit hgreatest text⟩
  intro list hparse
  constructor
  · intro hlow
    exact (wellFormed_of_ofChars (ofChars_of_parseWithin hlow)).2
  · intro hdepth
    rw [parseWithin, ofChars_of_depth_le hlimits (ofChars_of_parseWithin hparse) hdepth]
    rfl

/-- Two negations side by side, the first one with a negation and a class inside it.  One level is too few
for it, two levels are enough. -/
theorem parseWithin_of_limit_le_siblings :
    let text := ":not( :not(a) , .b):not(c)"
    let list : SelectorList :=
      [.last [.not [.last [.not [.last [.feature (.type "a")]]], .last [.feature (.hasClass "b")]],
        .not [.last [.feature (.type "c")]]]]
    1 ≤ 300 ∧ parseWithin 300 text = .ok list ∧ parseWithin 1 text = .error (.tooDeep 1) ∧
      2 ≤ 300 ∧ parseWithin 2 text = .ok list := by
  intro text list
  have hone : 1 ≤ 300 := by decide
  have htwo : 2 ≤ 300 := by decide
  have hparse : parseWithin 300 text = .ok list := by decide +kernel
  obtain ⟨hsame, hkept, -⟩ := parseWithin_of_limit_le text hone
  have hdeep : parseWithin 1 text ≠ .ok list := by
    rw [ne_eq, hkept list hparse]
    decide
  refine ⟨hone, hparse, ?_, htwo, ?_⟩
  · rcases hsame with hsame | htooDeep
    · exact absurd (hsame.trans hparse) hdeep
    · exact htooDeep
  · exact ((parseWithin_of_limit_le text htwo).2.1 list hparse).mpr (by decide)

end SelectorList

end FlatTree.Selector
