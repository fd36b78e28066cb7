import FlatTree.Selector.Basic

/-!
# Well-formed selectors

A selector list is well formed if it can be written at all: it has an alternative, no compound is empty, a
type or the universal selector only stands first in a compound, and no name is empty.  Its depth is the
number of negations that stand inside each other.
-/

namespace FlatTree.Selector

/-- Names are not empty, and those of attributes have no upper case. -/
def Feature.WellFormed : Feature → Prop
  | .type name => name ≠ ""
  | .hasId name => name ≠ ""
  | .hasClass name => name ≠ ""
  | .hasAttribute test => test.name ≠ "" ∧ ∀ c ∈ test.name.toList, c.isUpper = false
  | _ => True

/-- The simple selectors that only stand first in a compound. -/
def Simple.OnlyFirst : Simple → Prop
  | .feature (.type _) => True
  | .feature .universal => True
  | _ => False

mutual

def wellFormedSimple : Simple → Prop
  | .feature feature => feature.WellFormed
  | .not alternatives => alternatives ≠ [] ∧ wellFormedAlternatives alternatives
termination_by structural simple => simple

def wellFormedSimples : List Simple → Prop
  | [] => True
  | simple :: simples => wellFormedSimple simple ∧ wellFormedSimples simples
termination_by structural simples => simples

/-- No compound of the chain is empty, and what only stands first stands first. -/
def wellFormedChain : Chain Simple → Prop
  | .last compound =>
    compound ≠ [] ∧ (∀ simple ∈ compound.tail, ¬ simple.OnlyFirst) ∧ wellFormedSimples compound
  | .link compound _ rest =>
    (compound ≠ [] ∧ (∀ simple ∈ compound.tail, ¬ simple.OnlyFirst) ∧ wellFormedSimples compound) ∧
      wellFormedChain rest
termination_by structural chain => chain

def wellFormedAlternatives : List (Chain Simple) → Prop
  | [] => True
  | chain :: chains => wellFormedChain chain ∧ wellFormedAlternatives chains
termination_by structural chains => chains

end

/-- What a chain says of each of its compounds. -/
structure Compound.WellFormed (compound : Compound) : Prop where
  ne_nil : compound ≠ []
  not_onlyFirst : ∀ simple ∈ compound.tail, ¬ simple.OnlyFirst
  simples : wellFormedSimples compound

def SelectorList.WellFormed (alternatives : SelectorList) : Prop :=
  alternatives ≠ [] ∧ wellFormedAlternatives alternatives

mutual

def depthSimple : Simple → Nat
  | .feature _ => 0
  | .not alternatives => depthAlternatives alternatives + 1
termination_by structural simple => simple

def depthSimples : List Simple → Nat
  | [] => 0
  | simple :: simples => max (depthSimple simple) (depthSimples simples)
termination_by structural simples => simples

def depthChain : Chain Simple → Nat
  | .last compound => depthSimples compound
  | .link compound _ rest => max (depthSimples compound) (depthChain rest)
termination_by structural chain => chain

def depthAlternatives : List (Chain Simple) → Nat
  | [] => 0
  | chain :: chains => max (depthChain chain) (depthAlternatives chains)
termination_by structural chains => chains

end

/-- The number of negations inside each other. -/
def SelectorList.depth (alternatives : SelectorList) : Nat :=
  depthAlternatives alternatives

end FlatTree.Selector
