import FlatTree.Selector.Matching

/-!
# Matching as a run that can end early

A position at which the arithmetic overflows ends the whole run of the matcher, which then has no result.
Tests are made from left to right, and none is made that the ones before it have made unnecessary, so a run
ends early only at a position that it comes to.  The results of runs are those of the matcher that takes a
position without a result as one that is not selected.
-/

namespace FlatTree.Selector.ElementView

variable {ν : Type} (view : ElementView ν)

def hasFeature? (element : ν) : Feature → Option Bool
  | .nthChild nth => nth.selects? (view.rankOf element).position
  | .nthLastChild nth =>
    let rank := view.rankOf element
    nth.selects? (rank.count - rank.position + 1)
  | feature => some (view.hasFeature element feature)

mutual

def acceptsSimple? (element : ν) : Simple → Option Bool
  | .feature feature => view.hasFeature? element feature
  | .not alternatives => (acceptsAnySubject? element alternatives).map not
termination_by structural simple => simple

def acceptsAll? (element : ν) : List Simple → Option Bool
  | [] => some true
  | simple :: simples => do
    if ← acceptsSimple? element simple then acceptsAll? element simples else return false
termination_by structural simples => simples

def acceptsSubject? (element : ν) : Chain Simple → Option Bool
  | .last compound => if view.isElement element then acceptsAll? element compound else some false
  | .link _ _ rest => acceptsSubject? element rest
termination_by structural chain => chain

def acceptsAnySubject? (element : ν) : List (Chain Simple) → Option Bool
  | [] => some false
  | chain :: chains => do
    if ← acceptsSubject? element chain then return true else acceptsAnySubject? element chains
termination_by structural chains => chains

end

def acceptsCompound? (element : ν) (compound : Compound) : Option Bool :=
  if view.isElement element then view.acceptsAll? element compound else some false

def matchLeftward? (chain : Complex) : (matched : Nat) → ν → Option Bool
  | 0, _ => some true
  | left + 1, node =>
    match chain.links[left]?, chain.compoundAt? left with
    | some (combinator, _), some compound =>
      (view.related combinator node).anyM fun candidate => do
        if ← view.acceptsCompound? candidate compound then matchLeftward? chain left candidate
        else return false
    | _, _ => some false

def acceptsComplex? (node : ν) (chain : Complex) : Option Bool := do
  if ← view.acceptsCompound? node chain.subject then view.matchLeftward? chain chain.links.length node
  else return false

def acceptsList? (node : ν) (alternatives : SelectorList) : Option Bool :=
  alternatives.anyM (view.acceptsComplex? node)

end FlatTree.Selector.ElementView
