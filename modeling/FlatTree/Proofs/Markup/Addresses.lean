import FlatTree.Proofs.Markup.Placements
import Mathlib.Data.List.Nodup

/-!
# Addresses of sources

A source is named by the steps that lead to it from the document, each into one of the two lists of the
source before.  What is below a template that becomes a shadow root is taken from its contents, what is
below any other element from its children; the addresses that are reached in this way are those of the
placements, in the same order and each of them once.
-/

namespace FlatTree.Markup

/-- The lists in which sources stand below a source. -/
inductive Branch where
  | children
  | contents
deriving DecidableEq

/-- A step from a source, or from the document, to what stands at a place in one of its lists. -/
structure Step where
  branch : Branch
  index : Nat
deriving DecidableEq

/-- The steps that lead to a source, last one first.  No step leads to the document. -/
abbrev Address := List Step

namespace Source

def sourcesIn (source : Source) : Branch → List Source
  | .children => source.children
  | .contents => source.contents

/-- The list whose sources are placed, which depends on whether the source becomes a shadow root. -/
def branchFor (root : Option ShadowMode) : Branch :=
  if root.isSome then .contents else .children

/-- The mode that the source at a place declares, if it is the first one in the list to declare any. -/
def firstMode (sources : List Source) (index : Nat) : Option ShadowMode :=
  if (sources.take index).all (·.declaredMode.isNone) then sources[index]?.bind declaredMode else none

theorem firstMode_cons_succ (source : Source) (sources : List Source) (index : Nat) :
    firstMode (source :: sources) (index + 1) =
      if source.declaredMode.isNone then firstMode sources index else none := by
  rw [firstMode, List.take_succ_cons, List.all_cons, List.getElem?_cons_succ, firstMode]
  cases source.declaredMode <;> rfl

end Source

theorem Placement.sources_eq_sourcesIn (placement : Placement) :
    placement.sources = placement.source.sourcesIn (Source.branchFor placement.root) := by
  unfold Placement.sources Source.branchFor
  split <;> rfl

/-! ## What stands at an address -/

section Addresses

variable (sources : List Source)

/-- The sources in a list of what stands at an address. -/
def sourcesBelow : Address → Branch → List Source
  | [], .children => sources
  | [], .contents => []
  | step :: above, branch =>
    ((sourcesBelow above step.branch)[step.index]?.map (·.sourcesIn branch)).getD []

def source? : Address → Option Source
  | [] => none
  | step :: above => (sourcesBelow sources above step.branch)[step.index]?

/-- The mode of the shadow root that a template becomes.  It has to be the first one to declare a mode among
the children of an element. -/
def root? : Address → Option ShadowMode
  | [] => none
  | step :: above =>
    if above ≠ [] ∧ step.branch = .children ∧ root? above = none then
      Source.firstMode (sourcesBelow sources above .children) step.index
    else
      none

/-- The address lies in the contents of what does not become a shadow root. -/
def InFragment : Address → Prop
  | [] => False
  | step :: above => InFragment above ∨ step.branch = .contents ∧ root? sources above = none

/-- The address lies among the children of a template that becomes a shadow root. -/
def BelowRoot : Address → Prop
  | [] => False
  | step :: above => BelowRoot above ∨ step.branch = .children ∧ (root? sources above).isSome

/-- What stands at the address is loaded: it is not blank, and nothing above cuts it off. -/
structure Loaded (address : Address) : Prop where
  source : ∃ source, source? sources address = some source ∧ source.isLeftOut = false
  not_inFragment : ¬ InFragment sources address
  not_belowRoot : ¬ BelowRoot sources address

/-- No step takes the list that is not placed. -/
def Reached (address : Address) : Prop :=
  ¬ InFragment sources address ∧ ¬ BelowRoot sources address

mutual

/-- The addresses that are loaded at and below a source. -/
def addressesAt (address : Address) (free : Bool) : Source → List Address
  | .text content => if content.toList.all Text.isBlank then [] else [address]
  | .comment _ => [address]
  | .element head children contents =>
    match if free then head.declaredMode else none with
    | some _ => address :: addressesFrom address .contents 0 false contents
    | none => address :: addressesFrom address .children 0 true children
termination_by structural source => source

/-- The addresses that are loaded at and below the sources of a list from a place on. -/
def addressesFrom (above : Address) (branch : Branch) (index : Nat) (free : Bool) :
    List Source → List Address
  | [] => []
  | source :: sources =>
    addressesAt (⟨branch, index⟩ :: above) free source ++
      addressesFrom above branch (index + 1) (free && source.declaredMode.isNone) sources
termination_by structural sources => sources

end

/-- The addresses that are loaded, in document order. -/
def addresses : List Address :=
  addressesFrom [] .children 0 false sources

variable {sources}

theorem sourcesBelow_cons (step : Step) (above : Address) (branch : Branch) :
    sourcesBelow sources (step :: above) branch =
      ((source? sources (step :: above)).map (·.sourcesIn branch)).getD [] :=
  rfl

theorem reached_cons_iff {step : Step} {above : Address} :
    Reached sources (step :: above) ↔
      Reached sources above ∧ step.branch = Source.branchFor (root? sources above) := by
  rw [Reached, Reached, InFragment, BelowRoot, Source.branchFor]
  cases hbranch : step.branch with
  | children => cases root? sources above <;> simp [and_comm]
  | contents => cases root? sources above <;> simp

theorem loaded_iff_reached {address : Address} :
    Loaded sources address ↔
      (∃ source, source? sources address = some source ∧ source.isLeftOut = false) ∧
        Reached sources address := by
  constructor
  · intro hloaded
    exact ⟨hloaded.source, hloaded.not_inFragment, hloaded.not_belowRoot⟩
  · rintro ⟨hsource, hfragment, hroot⟩
    exact ⟨hsource, hfragment, hroot⟩

/-! ## Lists of addresses -/

theorem addressesFrom_cons_of_isLeftOut (above : Address) (branch : Branch) (index : Nat) (free : Bool)
    {source : Source} (hblank : source.isLeftOut = true) (others : List Source) :
    addressesFrom above branch index free (source :: others) =
      addressesFrom above branch (index + 1) free others := by
  have hnone : addressesAt (⟨branch, index⟩ :: above) free source = [] := by
    cases source with
    | text content => exact if_pos hblank
    | comment | element => cases hblank
  rw [addressesFrom, hnone, Source.declaredMode_of_isLeftOut hblank, Option.isNone_none, Bool.and_true]
  rfl

/-- A source comes before what is placed below it, and that before the other sources. -/
theorem addressesFrom_cons (above : Address) (branch : Branch) (index number : Nat) (free : Bool)
    {source : Source} (hshown : source.isLeftOut = false) (others : List Source) :
    addressesFrom above branch index free (source :: others) =
      let placement := source.placement number free
      (⟨branch, index⟩ :: above) ::
        (addressesFrom (⟨branch, index⟩ :: above) (Source.branchFor placement.root) 0
            placement.root.isNone placement.sources ++
          addressesFrom above branch (index + 1) (free && source.declaredMode.isNone) others) := by
  rw [addressesFrom]
  cases source with
  | text content =>
      have hblank : ¬ content.toList.all Text.isBlank = true := Bool.eq_false_iff.mp hshown
      rw [addressesAt, if_neg hblank]
      cases free <;> rfl
  | comment content => cases free <;> rfl
  | element head children contents =>
      simp only [addressesAt, Source.placement, Source.declaredMode]
      cases (if free then head.declaredMode else none) <;> rfl

theorem length_addressesFrom (above : Address) (branch : Branch) (index first number : Nat) (free : Bool)
    (others : List Source) :
    (addressesFrom above branch index free others).length =
      (placedAll first number free others).length := by
  induction others using Source.list_induction generalizing above branch index first number free with
  | nil => rfl
  | cons source others hinner ih =>
      cases hshown : source.isLeftOut with
      | true =>
          rw [addressesFrom_cons_of_isLeftOut above branch index free hshown,
            placedAll_cons_of_isLeftOut first number free hshown]
          exact ih ..
      | false =>
          rw [addressesFrom_cons above branch index number free hshown,
            placedAll_cons first number free hshown]
          simp only [List.length_cons, List.length_append]
          rw [hinner (source.placement number free) rfl _ _ _ (first + 1) first, ih]

/-- Everything that is listed stands at or below one of the sources. -/
theorem exists_suffix_of_mem {above : Address} {branch : Branch} {index : Nat} {free : Bool}
    {others : List Source} {address : Address}
    (hmem : address ∈ addressesFrom above branch index free others) :
    ∃ place, index ≤ place ∧ ⟨branch, place⟩ :: above <:+ address := by
  induction others using Source.list_induction generalizing above branch index free with
  | nil => contradiction
  | cons source others hinner ih =>
      have hrest {free : Bool} (hmem : address ∈ addressesFrom above branch (index + 1) free others) :
          ∃ place, index ≤ place ∧ ⟨branch, place⟩ :: above <:+ address := by
        obtain ⟨place, hplace, hsuffix⟩ := ih hmem
        exact ⟨place, Nat.le_of_succ_le hplace, hsuffix⟩
      cases hshown : source.isLeftOut with
      | true =>
          rw [addressesFrom_cons_of_isLeftOut above branch index free hshown] at hmem
          exact hrest hmem
      | false =>
          rw [addressesFrom_cons above branch index 0 free hshown] at hmem
          rcases List.mem_cons.mp hmem with rfl | hmem
          · exact ⟨index, Nat.le_refl index, List.suffix_rfl⟩
          · rcases List.mem_append.mp hmem with hmem | hmem
            · obtain ⟨place, -, hsuffix⟩ := hinner _ rfl hmem
              exact ⟨index, Nat.le_refl index, (List.suffix_cons _ _).trans hsuffix⟩
            · exact hrest hmem

theorem nodup_addressesFrom (above : Address) (branch : Branch) (index : Nat) (free : Bool)
    (others : List Source) : (addressesFrom above branch index free others).Nodup := by
  induction others using Source.list_induction generalizing above branch index free with
  | nil => exact List.nodup_nil
  | cons source others hinner ih =>
      cases hshown : source.isLeftOut with
      | true =>
          rw [addressesFrom_cons_of_isLeftOut above branch index free hshown]
          exact ih ..
      | false =>
          rw [addressesFrom_cons above branch index 0 free hshown, List.nodup_cons, List.nodup_append]
          -- Whatever stands at or below a later source does not stand at or below this one.
          have hlater {address : Address} (hwithin : ⟨branch, index⟩ :: above <:+ address) :
              address ∉ addressesFrom above branch (index + 1)
                (free && source.declaredMode.isNone) others := by
            intro hmem
            obtain ⟨place, hplace, hsuffix⟩ := exists_suffix_of_mem hmem
            have hsame := (List.suffix_of_suffix_length_le hwithin hsuffix (Nat.le_refl _)).eq_of_length rfl
            simp only [List.cons.injEq, Step.mk.injEq, true_and, and_true] at hsame
            omega
          refine ⟨?_, hinner _ rfl .., ih .., ?_⟩
          · rw [List.mem_append, not_or]
            refine ⟨?_, hlater List.suffix_rfl⟩
            intro hmem
            obtain ⟨place, -, hsuffix⟩ := exists_suffix_of_mem hmem
            have hlength := hsuffix.length_le
            simp only [List.length_cons] at hlength
            omega
          · rintro address hmem other hother rfl
            obtain ⟨place, -, hsuffix⟩ := exists_suffix_of_mem hmem
            exact hlater ((List.suffix_cons _ _).trans hsuffix) hother

/-! ## Addresses and placements -/

/-- The given sources are those that stand from a place on in a list below an address, and whether the first
of them to declare a mode becomes a shadow root is known. -/
structure Locates (sources : List Source) (above : Address) (branch : Branch) (index : Nat) (free : Bool)
    (others : List Source) : Prop where
  source : ∀ place, (sourcesBelow sources above branch)[index + place]? = others[place]?
  root : ∀ place, root? sources (⟨branch, index + place⟩ :: above) =
    if free then Source.firstMode others place else none
  reached : Reached sources above
  branch_eq : branch = Source.branchFor (root? sources above)

theorem locates_document (sources : List Source) : Locates sources [] .children 0 false sources where
  source := fun place => by rw [Nat.zero_add, sourcesBelow]
  root := fun _ => if_neg fun hcases => hcases.1 rfl
  reached := ⟨not_false, not_false⟩
  branch_eq := rfl

namespace Locates

variable {above : Address} {branch : Branch} {index : Nat} {free : Bool} {source : Source}
  {others : List Source}

theorem reached_cons (hlocates : Locates sources above branch index free others) (place : Nat) :
    Reached sources (⟨branch, place⟩ :: above) :=
  reached_cons_iff.mpr ⟨hlocates.reached, hlocates.branch_eq⟩

theorem rest (hlocates : Locates sources above branch index free (source :: others)) :
    Locates sources above branch (index + 1) (free && source.declaredMode.isNone) others where
  source := fun place => by
    rw [Nat.add_assoc, Nat.add_comm 1, hlocates.source, List.getElem?_cons_succ]
  root := fun place => by
    rw [Nat.add_assoc, Nat.add_comm 1, hlocates.root, Source.firstMode_cons_succ]
    cases free with
    | false => rfl
    | true => rfl
  reached := hlocates.reached
  branch_eq := hlocates.branch_eq

theorem source?_eq (hlocates : Locates sources above branch index free (source :: others)) :
    source? sources (⟨branch, index⟩ :: above) = some source :=
  hlocates.source 0

theorem root?_eq (hlocates : Locates sources above branch index free (source :: others)) (number : Nat) :
    root? sources (⟨branch, index⟩ :: above) = (source.placement number free).root :=
  hlocates.root 0

theorem inner (hlocates : Locates sources above branch index free (source :: others)) (number : Nat) :
    Locates sources (⟨branch, index⟩ :: above) (Source.branchFor (source.placement number free).root) 0
      (source.placement number free).root.isNone (source.placement number free).sources := by
  have hbelow : sourcesBelow sources (⟨branch, index⟩ :: above)
      (Source.branchFor (source.placement number free).root) =
        (source.placement number free).sources := by
    rw [sourcesBelow_cons, hlocates.source?_eq, Placement.sources_eq_sourcesIn]
    rfl
  refine ⟨fun place => by rw [hbelow, Nat.zero_add], ?_, hlocates.reached_cons index, ?_⟩
  · intro place
    rw [root?, hlocates.root?_eq number, Nat.zero_add]
    cases hroot : (source.placement number free).root with
    | none =>
        rw [hroot] at hbelow
        rw [if_pos ⟨List.cons_ne_nil _ _, rfl, rfl⟩, Option.isNone_none, if_pos rfl, ← hbelow]
        rfl
    | some mode =>
        rw [if_neg fun hcases => Option.some_ne_none mode hcases.2.2]
        rfl
  · rw [hlocates.root?_eq number]

end Locates

/-- The placement is what is made of the source at the address. -/
structure Places (sources : List Source) (address : Address) (placement : Placement) : Prop where
  source : source? sources address = some placement.source
  root : root? sources address = placement.root
  reached : Reached sources address

/-- The address of a source is followed by those below it, as many as nodes are made there, and by those of
the other sources. -/
theorem getElem?_addressesFrom_cons (above : Address) (branch : Branch) (index first number : Nat)
    (free : Bool) {source : Source} (hshown : source.isLeftOut = false) (others : List Source) :
    let listed := addressesFrom above branch index free (source :: others)
    let root := source.placement number free
    let inner := addressesFrom (⟨branch, index⟩ :: above) (Source.branchFor root.root) 0 root.root.isNone
      root.sources
    let count := (placedAll (first + 1) first root.root.isNone root.sources).length
    listed[0]? = some (⟨branch, index⟩ :: above) ∧
      (∀ place < count, listed[place + 1]? = inner[place]?) ∧
      ∀ place, listed[count + place + 1]? =
        (addressesFrom above branch (index + 1) (free && source.declaredMode.isNone) others)[place]? := by
  intro listed root inner count
  have hlength : inner.length = count := length_addressesFrom ..
  have hlisted : listed = _ := addressesFrom_cons above branch index number free hshown others
  refine ⟨?_, ?_, ?_⟩
  · rw [hlisted]
    rfl
  · intro place hplace
    rw [hlisted, List.getElem?_cons_succ]
    exact List.getElem?_append_left (hlength ▸ hplace)
  · intro place
    rw [hlisted, List.getElem?_cons_succ, ← hlength, List.getElem?_append_right (Nat.le_add_right _ _),
      Nat.add_sub_cancel_left]

/-- A node is made at each address, and it hangs on the node that is made at the address above. -/
theorem exists_address {above : Address} {branch : Branch} {index first number place : Nat} {free : Bool}
    {others : List Source} {placement : Placement}
    (hlocates : Locates sources above branch index free others)
    (hplacement : (placedAll first number free others)[place]? = some placement) :
    ∃ address, (addressesFrom above branch index free others)[place]? = some address ∧
      Places sources address placement ∧
      (placement.above = number ∧ address.tail = above ∨
        ∃ older < place, placement.above = first + older ∧
          (addressesFrom above branch index free others)[older]? = some address.tail) := by
  induction others using Source.list_induction
    generalizing above branch index first number place free with
  | nil => contradiction
  | cons source others hinner ih =>
      cases hshown : source.isLeftOut with
      | true =>
          rw [placedAll_cons_of_isLeftOut first number free hshown] at hplacement
          have hrest := hlocates.rest
          rw [Source.declaredMode_of_isLeftOut hshown, Option.isNone_none, Bool.and_true] at hrest
          rw [addressesFrom_cons_of_isLeftOut above branch index free hshown]
          exact ih hrest hplacement
      | false =>
          obtain ⟨hfirst, hbelow, hbehind⟩ :=
            getElem?_addressesFrom_cons above branch index first number free hshown others
          rcases cases_getElem?_placedAll_cons hshown hplacement with ⟨rfl, rfl⟩ | ⟨place, rfl, hlt, hplace⟩ |
            ⟨place, rfl, hplace⟩
          · refine ⟨⟨branch, index⟩ :: above, hfirst, ?_, .inl ⟨rfl, rfl⟩⟩
            exact ⟨hlocates.source?_eq, hlocates.root?_eq number, hlocates.reached_cons index⟩
          · obtain ⟨address, haddress, hplaces, habove⟩ := hinner _ rfl (hlocates.inner number) hplace
            refine ⟨address, (hbelow place hlt).trans haddress, hplaces, .inr ?_⟩
            rcases habove with ⟨habove, htail⟩ | ⟨older, holder, habove, htail⟩
            · exact ⟨0, Nat.succ_pos place, habove, hfirst.trans (congrArg some htail.symm)⟩
            · refine ⟨older + 1, Nat.succ_lt_succ holder, ?_, ?_⟩
              · rw [habove, Nat.add_assoc, Nat.add_comm 1]
              · exact (hbelow older (Nat.lt_trans holder hlt)).trans htail
          · obtain ⟨address, haddress, hplaces, habove⟩ := ih hlocates.rest hplace
            refine ⟨address, (hbehind place).trans haddress, hplaces, ?_⟩
            rcases habove with habove | ⟨older, holder, habove, htail⟩
            · exact .inl habove
            · refine .inr ⟨_, ?_, ?_, (hbehind older).trans htail⟩
              · exact Nat.succ_lt_succ (Nat.add_lt_add_left holder _)
              · omega

/-! ## What is loaded is listed -/

theorem mem_addressesFrom_of_getElem? (above : Address) (branch : Branch) (index : Nat) (free : Bool)
    {others : List Source} {place : Nat} {source : Source} (hsource : others[place]? = some source)
    (hshown : source.isLeftOut = false) :
    ⟨branch, index + place⟩ :: above ∈ addressesFrom above branch index free others := by
  induction others generalizing index free place with
  | nil => contradiction
  | cons other others ih =>
      cases place with
      | zero =>
          obtain rfl : other = source := Option.some.inj hsource
          rw [addressesFrom_cons above branch index 0 free hshown]
          exact List.mem_cons_self
      | succ place =>
          have hrest := ih (index + 1) (free && other.declaredMode.isNone) hsource
          rw [Nat.add_assoc, Nat.add_comm 1] at hrest
          rw [addressesFrom]
          exact List.mem_append_right _ hrest

/-- With an address is listed what is loaded right below it. -/
theorem cons_mem_addressesFrom {above : Address} {branch : Branch} {index : Nat} {free : Bool}
    {others : List Source} (hlocates : Locates sources above branch index free others) {step : Step}
    {address : Address} {source : Source}
    (hmem : address ∈ addressesFrom above branch index free others)
    (hsource : source? sources (step :: address) = some source) (hshown : source.isLeftOut = false)
    (hbranch : step.branch = Source.branchFor (root? sources address)) :
    step :: address ∈ addressesFrom above branch index free others := by
  induction others using Source.list_induction generalizing above branch index free with
  | nil => contradiction
  | cons other others hinner ih =>
      cases hfirst : other.isLeftOut with
      | true =>
          have hrest := hlocates.rest
          rw [Source.declaredMode_of_isLeftOut hfirst, Option.isNone_none, Bool.and_true] at hrest
          rw [addressesFrom_cons_of_isLeftOut above branch index free hfirst] at hmem ⊢
          exact ih hrest hmem
      | false =>
          rw [addressesFrom_cons above branch index 0 free hfirst] at hmem ⊢
          refine List.mem_cons_of_mem _ (List.mem_append.mpr ?_)
          rcases List.mem_cons.mp hmem with rfl | hmem
          · have hbelow := hlocates.inner 0
            rw [← hlocates.root?_eq 0, ← hbranch] at hbelow ⊢
            rw [source?, ← Nat.zero_add step.index, hbelow.source] at hsource
            have hlisted := mem_addressesFrom_of_getElem? (⟨branch, index⟩ :: above) step.branch 0
              (root? sources (⟨branch, index⟩ :: above)).isNone hsource hshown
            rw [Nat.zero_add] at hlisted
            exact .inl hlisted
          · rcases List.mem_append.mp hmem with hmem | hmem
            · exact .inl (hinner _ rfl (hlocates.inner 0) hmem)
            · exact .inr (ih hlocates.rest hmem)

/-- What stands below a source stands below an element. -/
theorem exists_of_source?_cons {step : Step} {above : Address} {source : Source}
    (hsource : source? sources (step :: above) = some source) :
    above = [] ∧ step.branch = .children ∨
      ∃ head children contents, source? sources above = some (.element head children contents) ∧
        (Source.element head children contents).sourcesIn step.branch ≠ [] := by
  cases above with
  | nil =>
      cases hbranch : step.branch with
      | children => exact .inl ⟨rfl, rfl⟩
      | contents => simp [source?, hbranch, sourcesBelow] at hsource
  | cons outer above =>
      right
      rw [source?, sourcesBelow_cons] at hsource
      cases hother : source? sources (outer :: above) with
      | none => simp [hother] at hsource
      | some other =>
          rw [hother] at hsource
          have hsource : (other.sourcesIn step.branch)[step.index]? = some source := hsource
          cases other with
          | element head children contents =>
              exact ⟨head, children, contents, rfl, List.ne_nil_of_mem (List.mem_of_getElem? hsource)⟩
          | text | comment => cases hbranch : step.branch <;> rw [hbranch] at hsource <;> contradiction

theorem mem_addresses_iff {address : Address} :
    address ∈ addresses sources ↔ Loaded sources address := by
  rw [loaded_iff_reached]
  constructor
  · intro hmem
    obtain ⟨place, hplace⟩ := List.mem_iff_getElem?.mp hmem
    have hlt := (List.getElem?_eq_some_iff.mp hplace).1
    rw [addresses, length_addressesFrom [] .children 0 1 0] at hlt
    have hplacement := List.getElem?_eq_getElem hlt
    obtain ⟨other, hother, hplaces, -⟩ := exists_address (locates_document sources) hplacement
    obtain rfl : address = other := Option.some.inj (hplace.symm.trans hother)
    exact ⟨⟨_, hplaces.source, isLeftOut_of_mem (List.mem_of_getElem? hplacement)⟩, hplaces.reached⟩
  · rintro ⟨⟨source, hsource, hshown⟩, hreached⟩
    induction address generalizing source with
    | nil => contradiction
    | cons step above ih =>
        obtain ⟨hreached, hbranch⟩ := reached_cons_iff.mp hreached
        rcases exists_of_source?_cons hsource with ⟨rfl, -⟩ | ⟨head, children, contents, habove, -⟩
        · obtain ⟨branch, index⟩ := step
          obtain rfl : branch = .children := hbranch
          have hlisted := mem_addressesFrom_of_getElem? [] .children 0 false hsource hshown
          rwa [Nat.zero_add] at hlisted
        · exact cons_mem_addressesFrom (locates_document sources) (ih hreached _ habove rfl)
            hsource hshown hbranch

end Addresses

end FlatTree.Markup
