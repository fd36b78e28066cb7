import FlatTree.Proofs.Selector.Counting
import FlatTree.Proofs.Selector.Placement

/-!
# What selectors say

A selector speaks of an element by the features that it has and by the elements that stand in the relations
of its combinators.  A compound says that all its parts hold, an excluded list that no subject among its
alternatives does, and a chain that there are related elements which its compounds describe one by one.
Matching from the right decides just that.
-/

namespace FlatTree.Selector

variable {ν : Type}

/-- What a comparison says of the value of an attribute.  An empty text occurs in no value. -/
def Comparison.Says (comparison : Comparison) (actual expected : String) : Prop :=
  match comparison with
  | equals => actual = expected
  | includes => expected ≠ "" ∧ expected ∈ Text.tokens actual
  | dash => actual = expected ∨ expected.toList ++ ['-'] <+: actual.toList
  | starts => expected ≠ "" ∧ expected.toList <+: actual.toList
  | ends => expected ≠ "" ∧ expected.toList <:+ actual.toList
  | contains => expected ≠ "" ∧ expected.toList <:+: actual.toList

theorem Comparison.holds_iff_says (comparison : Comparison) (actual expected : String) :
    comparison.holds actual expected = true ↔ comparison.Says actual expected := by
  cases comparison with
  | equals => simp [holds, Says]
  | includes => simp [holds, Says]
  | dash => simp [holds, Says]
  | starts => simp [holds, Says]
  | ends => simp [holds, Says]
  | contains => simp [holds, Says, occursIn_iff]

/-! ## One element -/

section Compounds

variable (has : Feature → Prop)

mutual

/-- What a simple selector says of an element that has the given features.  An excluded list is consulted
for the element alone, so that of each alternative only the subject counts. -/
def Simple.Says : Simple → Prop
  | .feature feature => has feature
  | .not alternatives => ¬ AnySubjectSays alternatives
termination_by structural simple => simple

def AllSay : List Simple → Prop
  | [] => True
  | simple :: simples => simple.Says ∧ AllSay simples
termination_by structural simples => simples

def SubjectSays : Chain Simple → Prop
  | .last compound => AllSay compound
  | .link _ _ rest => SubjectSays rest
termination_by structural chain => chain

def AnySubjectSays : List (Chain Simple) → Prop
  | [] => False
  | chain :: chains => SubjectSays chain ∨ AnySubjectSays chains
termination_by structural chains => chains

end

end Compounds

/-! ## Chains -/

/-- The compounds of a chain are met one by one, the first of them at `start` and the subject at `finish`,
and the nodes of neighbours are related as the combinator between them asks. -/
def Chain.Spans {σ : Type} (meets : List σ → ν → Prop) (relates : Combinator → ν → ν → Prop) :
    Chain σ → (start finish : ν) → Prop
  | .last compound, start, finish => start = finish ∧ meets compound finish
  | .link compound combinator rest, start, finish =>
    meets compound start ∧ ∃ next, relates combinator start next ∧ rest.Spans meets relates next finish

/-- Chains speak only of nodes at which a compound is met. -/
theorem Chain.Spans.imp {σ : Type} {meets meets' : List σ → ν → Prop}
    {relates relates' : Combinator → ν → ν → Prop}
    (hmeets : ∀ compound node, meets compound node → meets' compound node)
    (hrelates : ∀ combinator left right compound, meets compound right → relates combinator left right →
      relates' combinator left right)
    {chain : Chain σ} {start finish : ν} (hspans : chain.Spans meets relates start finish) :
    chain.Spans meets' relates' start finish := by
  induction chain generalizing start with
  | last compound => exact ⟨hspans.1, hmeets compound finish hspans.2⟩
  | link compound combinator rest ih =>
      obtain ⟨hstart, next, hrelated, hrest⟩ := hspans
      have hnext : ∃ compound, meets compound next := by
        cases rest with
        | last compound => exact ⟨compound, hrest.1 ▸ hrest.2⟩
        | link compound _ _ => exact ⟨compound, hrest.1⟩
      obtain ⟨other, hother⟩ := hnext
      exact ⟨hmeets compound start hstart, next, hrelates combinator start next other hother hrelated,
        ih hrest⟩

/-- The list that asks for one feature. -/
def SelectorList.ofFeature (feature : Feature) : SelectorList :=
  [.last [.feature feature]]

namespace ElementView

variable {view : ElementView ν}

section Element

variable {element : ν}

mutual

theorem acceptsSimple_iff_says (helement : view.isElement element = true) (simple : Simple) :
    view.acceptsSimple element simple = true ↔ simple.Says (view.hasFeature element · = true) := by
  cases simple with
  | feature feature => rfl
  | not alternatives =>
      rw [acceptsSimple, Simple.Says, Bool.not_eq_true', ← Bool.not_eq_true,
        acceptsAnySubject_iff_says helement alternatives]
termination_by structural simple

theorem acceptsAll_iff_says (helement : view.isElement element = true) (simples : List Simple) :
    view.acceptsAll element simples = true ↔ AllSay (view.hasFeature element · = true) simples := by
  cases simples with
  | nil => exact iff_of_true rfl trivial
  | cons simple simples =>
      rw [acceptsAll, AllSay, Bool.and_eq_true, acceptsSimple_iff_says helement simple,
        acceptsAll_iff_says helement simples]
termination_by structural simples

theorem acceptsSubject_iff_says (helement : view.isElement element = true) (chain : Chain Simple) :
    view.acceptsSubject element chain = true ↔ SubjectSays (view.hasFeature element · = true) chain := by
  cases chain with
  | last compound =>
      rw [acceptsSubject, SubjectSays, helement, Bool.true_and, acceptsAll_iff_says helement compound]
  | link compound combinator rest => exact acceptsSubject_iff_says helement rest
termination_by structural chain

theorem acceptsAnySubject_iff_says (helement : view.isElement element = true)
    (chains : List (Chain Simple)) :
    view.acceptsAnySubject element chains = true ↔
      AnySubjectSays (view.hasFeature element · = true) chains := by
  cases chains with
  | nil => exact iff_of_false Bool.false_ne_true not_false
  | cons chain chains =>
      rw [acceptsAnySubject, AnySubjectSays, Bool.or_eq_true, acceptsSubject_iff_says helement chain,
        acceptsAnySubject_iff_says helement chains]
termination_by structural chains

end

end Element

theorem acceptsCompound_iff_says (element : ν) (compound : Compound) :
    view.acceptsCompound element compound = true ↔
      view.isElement element = true ∧ AllSay (view.hasFeature element · = true) compound := by
  rw [acceptsCompound, Bool.and_eq_true]
  exact and_congr_right fun helement => acceptsAll_iff_says helement compound

/-- An element is accepted by the list that asks for one feature if it has that feature. -/
theorem acceptsList_ofFeature {element : ν} (helement : view.isElement element = true)
    (feature : Feature) :
    view.acceptsList element (.ofFeature feature) = view.hasFeature element feature := by
  simp [SelectorList.ofFeature, acceptsList, acceptsComplex, acceptsCompound, acceptsAll, acceptsSimple,
    matchLeftward, Chain.subject, Chain.links, helement]

/-- A chain is placed by its first compound and the rest. -/
theorem places_link_iff {compound : Compound} {combinator : Combinator} {rest : Complex} {place : Nat → ν} :
    view.Places (.link compound combinator rest) place ↔
      view.acceptsCompound (place 0) compound = true ∧
        view.Joins combinator (place 0) (place 1) ∧ view.Places rest fun index => place (index + 1) := by
  constructor
  · intro hplaces
    exact ⟨hplaces.matched 0 compound rfl, hplaces.joined 0 combinator rfl,
      fun index => hplaces.matched (index + 1), fun index => hplaces.joined (index + 1)⟩
  · rintro ⟨hfirst, hjoined, hrest⟩
    constructor
    · intro index other hother
      cases index with
      | zero => cases hother; exact hfirst
      | succ index => exact hrest.matched index other hother
    · intro index other hother
      cases index with
      | zero => cases hother; exact hjoined
      | succ index => exact hrest.joined index other hother

theorem exists_places_iff_spans (chain : Complex) (start finish : ν) :
    (∃ place : Nat → ν, place 0 = start ∧ place chain.combinators.length = finish ∧
        view.Places chain place) ↔
      chain.Spans (fun compound node => view.acceptsCompound node compound = true) view.Joins start
        finish := by
  induction chain generalizing start with
  | last compound =>
      constructor
      · rintro ⟨place, rfl, rfl, hplaces⟩
        exact ⟨rfl, hplaces.matched 0 compound rfl⟩
      · rintro ⟨rfl, hmatched⟩
        refine ⟨fun _ => start, rfl, rfl, ⟨?_, ?_⟩⟩
        · intro index other hother
          obtain ⟨rfl, rfl⟩ : index = 0 ∧ other = compound := by
            cases index with
            | zero => exact ⟨rfl, (Option.some.inj hother).symm⟩
            | succ index => cases hother
          exact hmatched
        · intro index other hother
          cases hother
  | link compound combinator rest ih =>
      constructor
      · rintro ⟨place, rfl, rfl, hplaces⟩
        obtain ⟨hstart, hjoined, hrest⟩ := places_link_iff.mp hplaces
        exact ⟨hstart, place 1, hjoined, (ih (place 1)).mp ⟨fun index => place (index + 1), rfl, rfl, hrest⟩⟩
      · rintro ⟨hstart, next, hjoined, hrest⟩
        obtain ⟨place, rfl, rfl, hplaces⟩ := (ih next).mpr hrest
        refine ⟨fun index => index.casesOn start place, rfl, rfl, ?_⟩
        exact places_link_iff.mpr ⟨hstart, hjoined, hplaces⟩

/-- Where walks end within reach, a chain is accepted at a node exactly if it spans from some node to it. -/
theorem acceptsComplex_iff_spans (hreaches : view.Reaches) (node : ν) (chain : Complex) :
    view.acceptsComplex node chain = true ↔ ∃ start,
      chain.Spans (fun compound node => view.acceptsCompound node compound = true) view.Joins start node := by
  simp only [acceptsComplex_iff_places hreaches, ← exists_places_iff_spans]
  constructor
  · rintro ⟨place, hlast, hplaces⟩
    exact ⟨place 0, place, rfl, hlast, hplaces⟩
  · rintro ⟨-, place, -, hlast, hplaces⟩
    exact ⟨place, hlast, hplaces⟩

end ElementView

end FlatTree.Selector
