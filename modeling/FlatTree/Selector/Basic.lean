import FlatTree.Selector.Nth

/-!
# Selectors

A selector list holds alternatives.  An alternative is a chain of compounds joined by combinators, and
a compound is a sequence of simple selectors that all speak of one element.  A simple selector names a
feature of the element or excludes the elements of a selector list.
-/

namespace FlatTree.Selector

/-- How an attribute's value is compared with the expected one. -/
inductive Comparison where
  | equals
  | includes
  | dash
  | starts
  | ends
  | contains
deriving DecidableEq

structure AttributeTest where
  name : String
  /-- The comparison with an expected value; without one the attribute only has to be present. -/
  value : Option (Comparison × String)
deriving DecidableEq

/-- What a simple selector can ask of an element without negation. -/
inductive Feature where
  | type (name : String)
  | universal
  | hasId (name : String)
  | hasClass (name : String)
  | hasAttribute (test : AttributeTest)
  | nthChild (nth : Nth)
  | nthLastChild (nth : Nth)
  | firstChild
  | lastChild
  | onlyChild
deriving DecidableEq

inductive Combinator where
  | descendant
  | child
  | adjacent
  | general
deriving DecidableEq

/-- Compounds of simple selectors `σ`, from the left, with a combinator between neighbours. -/
inductive Chain (σ : Type) where
  | last (compound : List σ)
  | link (compound : List σ) (combinator : Combinator) (rest : Chain σ)
deriving DecidableEq

namespace Chain

variable {σ : Type}

/-- The compound that speaks of the selected element itself. -/
def subject : Chain σ → List σ
  | last compound => compound
  | link _ _ rest => rest.subject

/-- The compound that stands furthest to the left. -/
def first : Chain σ → List σ
  | last compound => compound
  | link compound _ _ => compound

/-- The compounds behind the first one, each with the combinator before it. -/
def links : Chain σ → List (Combinator × List σ)
  | last _ => []
  | link _ combinator rest => (combinator, rest.first) :: rest.links

/-- The compound at a place, the first one being at place zero. -/
def compoundAt? (chain : Chain σ) : (place : Nat) → Option (List σ)
  | 0 => some chain.first
  | place + 1 => (chain.links[place]?).map Prod.snd

end Chain

inductive Simple where
  | feature (feature : Feature)
  | not (alternatives : List (Chain Simple))

abbrev Compound := List Simple

abbrev Complex := Chain Simple

abbrev SelectorList := List Complex

/-- The list that asks for all the classes at once.  Without a class it has no alternative. -/
def SelectorList.ofClasses : List String → SelectorList
  | [] => []
  | names => [.last (names.map fun name => .feature (.hasClass name))]

mutual

def decideSimple : (left right : Simple) → Decidable (left = right)
  | .feature left, .feature right => decidable_of_iff (left = right) (by simp)
  | .not left, .not right =>
    match decideAlternatives left right with
    | isTrue equal => isTrue (by rw [equal])
    | isFalse different => isFalse (by simpa using different)
  | .feature _, .not _ => isFalse nofun
  | .not _, .feature _ => isFalse nofun
termination_by structural left => left

def decideCompound : (left right : List Simple) → Decidable (left = right)
  | [], [] => isTrue rfl
  | left :: lefts, right :: rights =>
    match decideSimple left right, decideCompound lefts rights with
    | isTrue equal, isTrue equals => isTrue (by rw [equal, equals])
    | isFalse different, _ => isFalse fun equal => different (List.cons.inj equal).1
    | _, isFalse different => isFalse fun equal => different (List.cons.inj equal).2
  | [], _ :: _ => isFalse nofun
  | _ :: _, [] => isFalse nofun
termination_by structural left => left

def decideChain : (left right : Chain Simple) → Decidable (left = right)
  | .last left, .last right =>
    match decideCompound left right with
    | isTrue equal => isTrue (by rw [equal])
    | isFalse different => isFalse (by simpa using different)
  | .link left combinator lefts, .link right combinator' rights =>
    match decideCompound left right, decEq combinator combinator', decideChain lefts rights with
    | isTrue equal, isTrue same, isTrue equals => isTrue (by rw [equal, same, equals])
    | isFalse different, _, _ => isFalse fun equal => different (Chain.link.inj equal).1
    | _, isFalse different, _ => isFalse fun equal => different (Chain.link.inj equal).2.1
    | _, _, isFalse different => isFalse fun equal => different (Chain.link.inj equal).2.2
  | .last _, .link .. => isFalse nofun
  | .link .., .last _ => isFalse nofun
termination_by structural left => left

def decideAlternatives : (left right : List (Chain Simple)) → Decidable (left = right)
  | [], [] => isTrue rfl
  | left :: lefts, right :: rights =>
    match decideChain left right, decideAlternatives lefts rights with
    | isTrue equal, isTrue equals => isTrue (by rw [equal, equals])
    | isFalse different, _ => isFalse fun equal => different (List.cons.inj equal).1
    | _, isFalse different => isFalse fun equal => different (List.cons.inj equal).2
  | [], _ :: _ => isFalse nofun
  | _ :: _, [] => isFalse nofun
termination_by structural left => left

end

instance : DecidableEq Simple := decideSimple

end FlatTree.Selector
