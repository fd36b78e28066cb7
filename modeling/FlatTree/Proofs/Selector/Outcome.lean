import FlatTree.Selector.Outcome
import FlatTree.Proofs.Selector.Counting

/-!
# Results of runs that can end early

What comes of a run is either the result that the same tests have without a stop, or nothing.  Runs are put
together from smaller ones, and this is kept by each way to do so.  In views whose positions stay away from the
limit of 64 bits nothing stops a run.
-/

namespace FlatTree

/-- The outcome of a run is the given result, or there is none, which does not happen to free runs. -/
def Yields {α : Type} (free : Prop) (outcome : Option α) (result : α) : Prop :=
  outcome = some result ∨ outcome = none ∧ ¬ free

namespace Yields

variable {α β : Type} {free : Prop}

theorem pure (result : α) : Yields free (some result) result :=
  Or.inl rfl

theorem eq_some {outcome : Option α} {result : α} (hyields : Yields free outcome result) (hfree : free) :
    outcome = some result :=
  hyields.resolve_right fun hstopped => hstopped.2 hfree

/-- Whatever comes of a run is its result. -/
theorem eq_of_eq_some {outcome : Option α} {result found : α} (hyields : Yields free outcome result)
    (hfound : outcome = some found) : found = result := by
  rcases hyields with hresult | ⟨hnone, -⟩
  · exact Option.some.inj (hfound.symm.trans hresult)
  · rw [hnone] at hfound
    contradiction

theorem bind {outcome : Option α} {result : α} {next : α → Option β} {final : β}
    (hyields : Yields free outcome result) (hnext : Yields free (next result) final) :
    Yields free (outcome >>= next) final := by
  rcases hyields with rfl | ⟨rfl, hstopped⟩
  · exact hnext
  · exact Or.inr ⟨rfl, hstopped⟩

theorem map {outcome : Option α} {result : α} (change : α → β) (hyields : Yields free outcome result) :
    Yields free (outcome.map change) (change result) := by
  rcases hyields with rfl | ⟨rfl, hstopped⟩
  · exact Or.inl rfl
  · exact Or.inr ⟨rfl, hstopped⟩

variable {first second : Option Bool} {left right : Bool}

/-- The second test is made if the first one holds. -/
theorem and (hfirst : Yields free first left) (hsecond : Yields free second right) :
    Yields free (do if ← first then second else return false) (left && right) := by
  apply hfirst.bind
  cases left with
  | false => exact pure false
  | true => exact hsecond

/-- The second test is made if the first one fails. -/
theorem or (hfirst : Yields free first left) (hsecond : Yields free second right) :
    Yields free (do if ← first then return true else second) (left || right) := by
  apply hfirst.bind
  cases left with
  | false => exact hsecond
  | true => exact pure true

theorem guarded (condition : Bool) (hsecond : Yields free second right) :
    Yields free (if condition then second else some false) (condition && right) := by
  cases condition with
  | false => exact pure false
  | true => exact hsecond

variable {test : α → Option Bool} {holds : α → Bool}

theorem anyM (htest : ∀ entry, Yields free (test entry) (holds entry)) (entries : List α) :
    Yields free (entries.anyM test) (entries.any holds) := by
  induction entries with
  | nil => exact pure false
  | cons entry entries ih =>
      rw [List.any_cons, List.anyM]
      apply (htest entry).bind
      cases holds entry with
      | false => exact ih
      | true => exact pure true

theorem findM? (htest : ∀ entry, Yields free (test entry) (holds entry)) (entries : List α) :
    Yields free (entries.findM? test) (entries.find? holds) := by
  induction entries with
  | nil => exact pure none
  | cons entry entries ih =>
      rw [List.findM?, List.find?]
      apply (htest entry).bind
      cases holds entry with
      | false => exact ih
      | true => exact pure (some entry)

theorem filterM (htest : ∀ entry, Yields free (test entry) (holds entry)) (entries : List α) :
    Yields free (entries.filterM test) (entries.filter holds) := by
  have hrun (kept : List α) :
      Yields free (entries.filterAuxM test kept) ((entries.filter holds).reverse ++ kept) := by
    induction entries generalizing kept with
    | nil => exact pure kept
    | cons entry entries ih =>
        rw [List.filterAuxM, List.filter_cons]
        apply (htest entry).bind
        cases holds entry with
        | false => exact ih kept
        | true => simpa using ih (entry :: kept)
  rw [List.filterM]
  apply (hrun []).bind
  rw [List.append_nil, List.reverse_reverse]
  exact pure _

end Yields

namespace Selector

theorem Nth.selects?_yields {free : Prop} (nth : Nth) {position : Nat}
    (hclear : free → position < 2 ^ 63 - 2 ^ 31) :
    Yields free (nth.selects? position) (nth.selects position) := by
  cases hselects : nth.selects? position with
  | none =>
      refine Or.inr ⟨rfl, fun hfree => ?_⟩
      have hlower := nth.offset.le_toInt
      have hlt := hclear hfree
      have hbound : position < positionBound := by
        rw [positionBound]
        omega
      have hlarge := (nth.selects?_eq_none_iff hbound).mp hselects
      omega
  | some selected =>
      rw [selects, hselects]
      cases selected with
      | false => exact Yields.pure false
      | true => exact Yields.pure true

namespace ElementView

variable {ν : Type}

/-- No position, from the front or from the back, is within 32 bits of the limit of 64 bits. -/
def StaysClear (view : ElementView ν) : Prop :=
  ∀ element, (view.rankOf element).position < 2 ^ 63 - 2 ^ 31 ∧
    (view.rankOf element).count - (view.rankOf element).position + 1 < 2 ^ 63 - 2 ^ 31

variable (view : ElementView ν)

theorem hasFeature?_yields (element : ν) (feature : Feature) :
    Yields view.StaysClear (view.hasFeature? element feature) (view.hasFeature element feature) := by
  cases feature with
  | nthChild nth => exact nth.selects?_yields fun hclear => (hclear element).1
  | nthLastChild nth => exact nth.selects?_yields fun hclear => (hclear element).2
  | _ => exact Yields.pure _

mutual

theorem acceptsSimple?_yields (element : ν) (simple : Simple) :
    Yields view.StaysClear (view.acceptsSimple? element simple) (view.acceptsSimple element simple) := by
  cases simple with
  | feature feature => exact view.hasFeature?_yields element feature
  | not alternatives => exact (acceptsAnySubject?_yields element alternatives).map not
termination_by structural simple

theorem acceptsAll?_yields (element : ν) (simples : List Simple) :
    Yields view.StaysClear (view.acceptsAll? element simples) (view.acceptsAll element simples) := by
  cases simples with
  | nil => exact Yields.pure true
  | cons simple simples =>
      exact (acceptsSimple?_yields element simple).and (acceptsAll?_yields element simples)
termination_by structural simples

theorem acceptsSubject?_yields (element : ν) (chain : Chain Simple) :
    Yields view.StaysClear (view.acceptsSubject? element chain) (view.acceptsSubject element chain) := by
  cases chain with
  | last compound => exact (acceptsAll?_yields element compound).guarded _
  | link compound combinator rest => exact acceptsSubject?_yields element rest
termination_by structural chain

theorem acceptsAnySubject?_yields (element : ν) (alternatives : List (Chain Simple)) :
    Yields view.StaysClear (view.acceptsAnySubject? element alternatives)
      (view.acceptsAnySubject element alternatives) := by
  cases alternatives with
  | nil => exact Yields.pure false
  | cons chain chains =>
      exact (acceptsSubject?_yields element chain).or (acceptsAnySubject?_yields element chains)
termination_by structural alternatives

end

theorem acceptsCompound?_yields (element : ν) (compound : Compound) :
    Yields view.StaysClear (view.acceptsCompound? element compound)
      (view.acceptsCompound element compound) :=
  (view.acceptsAll?_yields element compound).guarded _

theorem matchLeftward?_yields (chain : Complex) (matched : Nat) (node : ν) :
    Yields view.StaysClear (view.matchLeftward? chain matched node)
      (view.matchLeftward chain matched node) := by
  induction matched generalizing node with
  | zero => exact Yields.pure true
  | succ left ih =>
      rw [matchLeftward?, matchLeftward]
      cases chain.links[left]? with
      | none => exact Yields.pure false
      | some link =>
          cases chain.compoundAt? left with
          | none => exact Yields.pure false
          | some compound =>
              exact Yields.anyM
                (fun candidate => (view.acceptsCompound?_yields candidate compound).and (ih candidate)) _

theorem acceptsComplex?_yields (node : ν) (chain : Complex) :
    Yields view.StaysClear (view.acceptsComplex? node chain) (view.acceptsComplex node chain) :=
  (view.acceptsCompound?_yields node chain.subject).and (view.matchLeftward?_yields chain _ node)

/-- A run of the matcher ends with the answer that the matcher has without a stop, or early, and not early
where positions stay clear of the limit. -/
theorem acceptsList?_yields (node : ν) (list : SelectorList) :
    Yields view.StaysClear (view.acceptsList? node list) (view.acceptsList node list) :=
  Yields.anyM (view.acceptsComplex?_yields node) list

end ElementView

end Selector

end FlatTree
