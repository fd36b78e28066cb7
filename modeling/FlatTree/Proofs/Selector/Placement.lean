import FlatTree.Proofs.Walk
import FlatTree.Selector.Matching

/-!
# Placing a chain

A chain matches at a node if its compounds can be placed: each of them at a node that it matches, the
last one at the given node, and neighbours in the relation of the combinator between them.  The search
from the right finds such a placement whenever there is one, as long as walks over parents and over
previous elements end.
-/

namespace FlatTree.Selector

open Relation

namespace Chain

variable {σ : Type}

/-- The compounds of a chain, from the left. -/
def compounds : Chain σ → List (List σ)
  | last compound => [compound]
  | link compound _ rest => compound :: rest.compounds

/-- The combinators of a chain, from the left. -/
def combinators : Chain σ → List Combinator
  | last _ => []
  | link _ combinator rest => combinator :: rest.combinators

theorem map_fst_links (chain : Chain σ) : chain.links.map Prod.fst = chain.combinators := by
  induction chain with
  | last _ => rfl
  | link _ combinator rest ih => rw [links, List.map_cons, ih, combinators]

theorem first_cons_map_snd_links (chain : Chain σ) :
    chain.first :: chain.links.map Prod.snd = chain.compounds := by
  induction chain with
  | last _ => rfl
  | link compound _ rest ih => rw [links, List.map_cons, ih, first, compounds]

theorem length_links (chain : Chain σ) : chain.links.length = chain.combinators.length := by
  rw [← map_fst_links, List.length_map]

theorem length_compounds (chain : Chain σ) :
    chain.compounds.length = chain.combinators.length + 1 := by
  rw [← first_cons_map_snd_links, List.length_cons, List.length_map, length_links]

theorem compoundAt?_eq (chain : Chain σ) (place : Nat) :
    chain.compoundAt? place = chain.compounds[place]? := by
  rw [← first_cons_map_snd_links]
  cases place with
  | zero => rfl
  | succ place => rw [compoundAt?, List.getElem?_cons_succ, List.getElem?_map]

theorem getElem?_compounds_last (chain : Chain σ) :
    chain.compounds[chain.combinators.length]? = some chain.subject := by
  induction chain with
  | last _ => rfl
  | link _ _ rest ih => simpa only [compounds, combinators, List.length_cons,
      List.getElem?_cons_succ, subject] using ih

/-- To the left of each compound but the first stand a combinator and another compound. -/
theorem exists_link_of_lt {chain : Chain σ} {left : Nat} (hlt : left < chain.combinators.length) :
    ∃ combinator right compound, chain.links[left]? = some (combinator, right) ∧
      chain.combinators[left]? = some combinator ∧ chain.compoundAt? left = some compound := by
  have hlinks : left < chain.links.length := by rwa [length_links]
  have hcompounds : left < chain.compounds.length := by
    rw [length_compounds]
    omega
  refine ⟨chain.links[left].1, chain.links[left].2, chain.compounds[left],
    List.getElem?_eq_getElem hlinks, ?_, ?_⟩
  · rw [← map_fst_links, List.getElem?_map, List.getElem?_eq_getElem hlinks]
    rfl
  · rw [compoundAt?_eq, List.getElem?_eq_getElem hcompounds]

end Chain

namespace ElementView

variable {ν : Type} (view : ElementView ν)

/-- What a combinator asks of the node on its left, seen from the node on its right. -/
def Joins : Combinator → (left right : ν) → Prop
  | .descendant, left, right => TransGen (Leads view.parent) right left
  | .child, left, right => view.parent right = some left
  | .adjacent, left, right => view.previous right = some left
  | .general, left, right => TransGen (Leads view.previous) right left

/-- A node for every compound of a chain.  The compounds match there, and the nodes of neighbours stand
as the combinator between them asks. -/
structure Places (chain : Complex) (place : Nat → ν) : Prop where
  matched : ∀ index compound, chain.compounds[index]? = some compound →
    view.acceptsCompound (place index) compound = true
  joined : ∀ index combinator, chain.combinators[index]? = some combinator →
    view.Joins combinator (place index) (place (index + 1))

/-- The part of a placement to the left of a compound. -/
structure PlacesLeft (chain : Complex) (right : Nat) (place : Nat → ν) : Prop where
  matched : ∀ index < right, ∀ compound, chain.compounds[index]? = some compound →
    view.acceptsCompound (place index) compound = true
  joined : ∀ index < right, ∀ combinator, chain.combinators[index]? = some combinator →
    view.Joins combinator (place index) (place (index + 1))

/-- The walks end within the reach of the view. -/
structure Reaches : Prop where
  parent : ∀ node, EndsWithin view.parent (view.reach node) node
  previous : ∀ node, EndsWithin view.previous (view.reach node) node

/-- The places and nodes at which the search for a chain that ends at `node` is run. -/
inductive Searches (chain : Complex) (node : ν) : (matched : Nat) → ν → Prop where
  | start : view.acceptsCompound node chain.subject = true →
      Searches chain node chain.links.length node
  | leftward {left : Nat} {element candidate : ν} {combinator : Combinator} {right compound : Compound}
      (searched : Searches chain node (left + 1) element)
      (link : chain.links[left]? = some (combinator, right))
      (found : chain.compoundAt? left = some compound)
      (candidate_mem : candidate ∈ view.related combinator element)
      (matched : view.acceptsCompound candidate compound = true) :
      Searches chain node left candidate

variable {view}

theorem mem_related_iff (hreaches : view.Reaches) (combinator : Combinator) (left right : ν) :
    left ∈ view.related combinator right ↔ view.Joins combinator left right := by
  cases combinator with
  | descendant => exact mem_walk_iff (hreaches.parent right)
  | child => exact Option.mem_toList
  | adjacent => exact Option.mem_toList
  | general => exact mem_walk_iff (hreaches.previous right)

/-- One step of the search, behind the look-ups. -/
theorem matchLeftward_succ {chain : Complex} {left : Nat} {combinator : Combinator}
    {right compound : Compound} (hlink : chain.links[left]? = some (combinator, right))
    (hcompound : chain.compoundAt? left = some compound) (node : ν) :
    view.matchLeftward chain (left + 1) node = true ↔
      ∃ candidate ∈ view.related combinator node,
        view.acceptsCompound candidate compound = true ∧
          view.matchLeftward chain left candidate = true := by
  rw [matchLeftward, hlink, hcompound]
  simp only [List.any_eq_true, Bool.and_eq_true]

/-- A placement to the left of a candidate extends by the candidate itself. -/
theorem PlacesLeft.extend {chain : Complex} {left : Nat} {place : Nat → ν} {node : ν}
    {combinator : Combinator} {compound : Compound} (hplaces : view.PlacesLeft chain left place)
    (hcombinator : chain.combinators[left]? = some combinator)
    (hcompound : chain.compounds[left]? = some compound)
    (hjoins : view.Joins combinator (place left) node)
    (hmatched : view.acceptsCompound (place left) compound = true) :
    view.PlacesLeft chain (left + 1) (fun index => if index ≤ left then place index else node) where
  matched := by
    intro index hindex found hfound
    have hle : index ≤ left := Nat.lt_succ_iff.mp hindex
    rw [if_pos hle]
    rcases Nat.lt_or_eq_of_le hle with hlt | rfl
    · exact hplaces.matched index hlt found hfound
    · rw [hcompound] at hfound
      cases hfound
      exact hmatched
  joined := by
    intro index hindex found hfound
    have hle : index ≤ left := Nat.lt_succ_iff.mp hindex
    rw [if_pos hle]
    rcases Nat.lt_or_eq_of_le hle with hlt | rfl
    · rw [if_pos (Nat.succ_le_of_lt hlt)]
      exact hplaces.joined index hlt found hfound
    · rw [if_neg (Nat.not_succ_le_self index)]
      rw [hcombinator] at hfound
      cases hfound
      exact hjoins

theorem matchLeftward_iff_placesLeft (hreaches : view.Reaches) {chain : Complex} {matched : Nat}
    (hle : matched ≤ chain.combinators.length) (node : ν) :
    view.matchLeftward chain matched node = true ↔
      ∃ place : Nat → ν, place matched = node ∧ view.PlacesLeft chain matched place := by
  -- The search goes from the right to the left, so the induction is on the compounds still to be placed.
  induction matched generalizing node with
  | zero =>
      refine ⟨fun _ => ⟨fun _ => node, rfl, ⟨?_, ?_⟩⟩, fun _ => rfl⟩
      · intro index hindex
        exact absurd hindex (Nat.not_lt_zero index)
      · intro index hindex
        exact absurd hindex (Nat.not_lt_zero index)
  | succ left ih =>
      obtain ⟨combinator, right, compound, hlink, hcombinator, hcompound⟩ :=
        Chain.exists_link_of_lt (Nat.lt_of_succ_le hle)
      have hcompound' : chain.compounds[left]? = some compound := by
        rw [← Chain.compoundAt?_eq, hcompound]
      rw [matchLeftward_succ hlink hcompound]
      constructor
      · rintro ⟨candidate, hmem, hmatched, hsearch⟩
        obtain ⟨place, rfl, hplaces⟩ := (ih (Nat.le_of_succ_le hle) candidate).mp hsearch
        rw [mem_related_iff hreaches] at hmem
        exact ⟨_, if_neg (Nat.not_succ_le_self left),
          hplaces.extend hcombinator hcompound' hmem hmatched⟩
      · rintro ⟨place, rfl, hplaces⟩
        refine ⟨place left, ?_, hplaces.matched left left.lt_succ_self compound hcompound', ?_⟩
        · rw [mem_related_iff hreaches]
          exact hplaces.joined left left.lt_succ_self combinator hcombinator
        · refine (ih (Nat.le_of_succ_le hle) (place left)).mpr ⟨place, rfl, ⟨?_, ?_⟩⟩
          · intro index hindex
            exact hplaces.matched index (Nat.lt_succ_of_lt hindex)
          · intro index hindex
            exact hplaces.joined index (Nat.lt_succ_of_lt hindex)

theorem places_iff_placesLeft {chain : Complex} {place : Nat → ν} :
    view.Places chain place ↔
      view.acceptsCompound (place chain.combinators.length) chain.subject = true ∧
        view.PlacesLeft chain chain.combinators.length place := by
  constructor
  · intro hplaces
    refine ⟨hplaces.matched _ _ chain.getElem?_compounds_last, ⟨?_, ?_⟩⟩
    · intro index _
      exact hplaces.matched index
    · intro index _
      exact hplaces.joined index
  · rintro ⟨hsubject, hleft⟩
    refine ⟨?_, ?_⟩
    · intro index compound hcompound
      have hlt := (List.getElem?_eq_some_iff.mp hcompound).1
      rw [Chain.length_compounds] at hlt
      rcases Nat.lt_or_eq_of_le (Nat.lt_succ_iff.mp hlt) with hlt | rfl
      · exact hleft.matched index hlt compound hcompound
      · rw [chain.getElem?_compounds_last] at hcompound
        cases hcompound
        exact hsubject
    · intro index combinator hcombinator
      exact hleft.joined index (List.getElem?_eq_some_iff.mp hcombinator).1 combinator hcombinator

theorem acceptsComplex_iff_places (hreaches : view.Reaches) (node : ν) (chain : Complex) :
    view.acceptsComplex node chain = true ↔
      ∃ place : Nat → ν, place chain.combinators.length = node ∧ view.Places chain place := by
  rw [acceptsComplex, Chain.length_links, Bool.and_eq_true,
    matchLeftward_iff_placesLeft hreaches (Nat.le_refl _)]
  constructor
  · rintro ⟨hsubject, place, rfl, hleft⟩
    exact ⟨place, rfl, places_iff_placesLeft.mpr ⟨hsubject, hleft⟩⟩
  · rintro ⟨place, rfl, hplaces⟩
    obtain ⟨hsubject, hleft⟩ := places_iff_placesLeft.mp hplaces
    exact ⟨hsubject, place, rfl, hleft⟩

end ElementView

end FlatTree.Selector
