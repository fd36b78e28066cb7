import FlatTree.Selector.Basic
import FlatTree.Walk

/-!
# Matching

Selectors are tested against elements that are seen through a view.  What parents and siblings are is
the view's affair.  A chain is tested from its right end: for each combinator one of the related nodes
has to match the compound on its left, and from there the search goes on to the left.  The test of a position
that has no result counts as failed here; `acceptsList?` is the matcher that ends with it.
-/

namespace FlatTree.Selector

/-- The place of an element among its element siblings, counted from one, and their number. -/
structure Rank where
  position : Nat
  count : Nat
deriving DecidableEq

structure ElementView (ν : Type) where
  parent : ν → Option ν
  /-- The nearest element among the siblings before a node. -/
  previous : ν → Option ν
  isElement : ν → Bool
  isHtml : ν → Bool
  localName : ν → String
  id : ν → Option String
  hasClass : ν → String → Bool
  attributeValue : ν → String → Option String
  /-- Elements without a parent have no rank. -/
  rank : ν → Option Rank
  /-- A bound on the steps of a walk from a node over parents or over previous elements. -/
  reach : ν → Nat

/-- Whether a part occurs somewhere in a text. -/
def occursIn (part : List Char) : List Char → Bool
  | [] => part.isEmpty
  | c :: rest => part.isPrefixOf (c :: rest) || occursIn part rest

theorem occursIn_iff (part whole : List Char) : occursIn part whole = true ↔ part <:+: whole := by
  induction whole with
  | nil => rw [occursIn, List.isEmpty_iff, List.infix_nil]
  | cons c rest ih =>
    rw [occursIn, Bool.or_eq_true, List.isPrefixOf_iff_prefix, ih, List.infix_cons_iff]

/-- Whether an actual value stands in the relation to the expected one.  An empty expected value has
no occurrence in any value. -/
def Comparison.holds (comparison : Comparison) (actual expected : String) : Bool :=
  let whole := actual.toList
  let part := expected.toList
  match comparison with
  | equals => actual = expected
  | includes => !part.isEmpty && (Text.tokens actual).contains expected
  | dash => actual = expected || (part ++ ['-']).isPrefixOf whole
  | starts => !part.isEmpty && part.isPrefixOf whole
  | ends => !part.isEmpty && part.isSuffixOf whole
  | contains => !part.isEmpty && occursIn part whole

namespace ElementView

variable {ν : Type} (view : ElementView ν)

/-- An element without a rank counts as an only child. -/
def rankOf (element : ν) : Rank :=
  (view.rank element).getD ⟨1, 1⟩

/-- The nodes that may stand to the left of a combinator, nearest first. -/
def related (combinator : Combinator) (node : ν) : List ν :=
  match combinator with
  | .descendant => walk view.parent (view.reach node) node
  | .child => (view.parent node).toList
  | .adjacent => (view.previous node).toList
  | .general => walk view.previous (view.reach node) node

def passes (element : ν) (test : AttributeTest) : Bool :=
  match view.attributeValue element test.name with
  | none => false
  | some actual => test.value.all fun expected => expected.1.holds actual expected.2

/-- The names of HTML elements are compared up to case, all others exactly. -/
def hasType (element : ν) (name : String) : Bool :=
  if view.isHtml element then
    Text.sameUpToCase (view.localName element) name
  else
    view.localName element = name

def hasFeature (element : ν) : Feature → Bool
  | .type name => view.hasType element name
  | .universal => true
  | .hasId name => view.id element = some name
  | .hasClass name => view.hasClass element name
  | .hasAttribute test => view.passes element test
  | .nthChild nth => nth.selects (view.rankOf element).position
  | .nthLastChild nth =>
    let rank := view.rankOf element
    nth.selects (rank.count - rank.position + 1)
  | .firstChild => (view.rankOf element).position = 1
  | .lastChild =>
    let rank := view.rankOf element
    rank.position = rank.count
  | .onlyChild => (view.rankOf element).count = 1

mutual

/-- An excluded list is consulted for the element alone: only the subject of each alternative counts. -/
def acceptsSimple (element : ν) : Simple → Bool
  | .feature feature => view.hasFeature element feature
  | .not alternatives => !acceptsAnySubject element alternatives
termination_by structural simple => simple

def acceptsAll (element : ν) : List Simple → Bool
  | [] => true
  | simple :: simples => acceptsSimple element simple && acceptsAll element simples
termination_by structural simples => simples

def acceptsSubject (element : ν) : Chain Simple → Bool
  | .last compound => view.isElement element && acceptsAll element compound
  | .link _ _ rest => acceptsSubject element rest
termination_by structural chain => chain

def acceptsAnySubject (element : ν) : List (Chain Simple) → Bool
  | [] => false
  | chain :: chains => acceptsSubject element chain || acceptsAnySubject element chains
termination_by structural chains => chains

end

/-- Only elements match, whatever the compound asks. -/
def acceptsCompound (element : ν) (compound : Compound) : Bool :=
  view.isElement element && view.acceptsAll element compound

/-- Whether all that stands to the left of the compound at the place `matched` can be met, given that
this compound matches at the node. -/
def matchLeftward (chain : Complex) : (matched : Nat) → ν → Bool
  | 0, _ => true
  | left + 1, node =>
    match chain.links[left]?, chain.compoundAt? left with
    | some (combinator, _), some compound =>
      (view.related combinator node).any fun candidate =>
        view.acceptsCompound candidate compound && matchLeftward chain left candidate
    | _, _ => false

def acceptsComplex (node : ν) (chain : Complex) : Bool :=
  view.acceptsCompound node chain.subject && view.matchLeftward chain chain.links.length node

def acceptsList (node : ν) (alternatives : SelectorList) : Bool :=
  alternatives.any (view.acceptsComplex node)

end ElementView

end FlatTree.Selector
