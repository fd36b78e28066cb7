import FlatTree.Proofs.Selector.Placement

/-!
# Chains that go on

A chain goes on when a combinator and another compound are put behind its subject.  The compounds keep
their places, so the search from the right takes one step more and is then the search for the chain itself:
the longer chain accepts a node if its last compound does and the chain accepts a related node.
-/

namespace FlatTree.Selector

namespace Chain

variable {σ : Type}

/-- The chain with a combinator and another compound behind it. -/
def extend (combinator : Combinator) (compound : List σ) : Chain σ → Chain σ
  | last subject => link subject combinator (last compound)
  | link first between rest => link first between (rest.extend combinator compound)

variable (chain : Chain σ) (combinator : Combinator) (compound : List σ)

@[simp]
theorem subject_extend : (chain.extend combinator compound).subject = compound := by
  induction chain with
  | last _ => rfl
  | link _ _ _ ih => exact ih

@[simp]
theorem first_extend : (chain.extend combinator compound).first = chain.first := by
  cases chain <;> rfl

@[simp]
theorem links_extend :
    (chain.extend combinator compound).links = chain.links ++ [(combinator, compound)] := by
  induction chain with
  | last _ => rfl
  | link _ between rest ih => rw [extend, links, links, first_extend, ih, List.cons_append]

theorem compoundAt?_extend {place : Nat} (hle : place ≤ chain.links.length) :
    (chain.extend combinator compound).compoundAt? place = chain.compoundAt? place := by
  cases place with
  | zero => exact congrArg some (chain.first_extend combinator compound)
  | succ place =>
      rw [compoundAt?, compoundAt?, links_extend, List.getElem?_append_left (Nat.lt_of_succ_le hle)]

theorem compoundAt?_length_links : chain.compoundAt? chain.links.length = some chain.subject := by
  rw [compoundAt?_eq, length_links, getElem?_compounds_last]

end Chain

namespace ElementView

variable {ν : Type} (view : ElementView ν) (chain : Complex) (combinator : Combinator)
  (compound : Compound)

/-- To the left of its old subject the longer chain is searched as the chain itself. -/
theorem matchLeftward_extend {matched : Nat} (hle : matched ≤ chain.links.length) (node : ν) :
    view.matchLeftward (chain.extend combinator compound) matched node =
      view.matchLeftward chain matched node := by
  induction matched generalizing node with
  | zero => rfl
  | succ left ih =>
      have hleft : left ≤ chain.links.length := Nat.le_of_succ_le hle
      rw [matchLeftward, matchLeftward, Chain.links_extend, List.getElem?_append_left hle,
        chain.compoundAt?_extend combinator compound hleft]
      simp only [ih hleft]

theorem acceptsComplex_extend (node : ν) :
    view.acceptsComplex node (chain.extend combinator compound) =
      (view.acceptsCompound node compound &&
        (view.related combinator node).any fun candidate => view.acceptsComplex candidate chain) := by
  have hlink : (chain.extend combinator compound).links[chain.links.length]? =
      some (combinator, compound) := by
    rw [Chain.links_extend, List.getElem?_concat_length]
  have hcompound : (chain.extend combinator compound).compoundAt? chain.links.length =
      some chain.subject := by
    rw [chain.compoundAt?_extend combinator compound (Nat.le_refl _), chain.compoundAt?_length_links]
  have hlength : (chain.extend combinator compound).links.length = chain.links.length + 1 := by
    rw [Chain.links_extend, List.length_append, List.length_singleton]
  rw [acceptsComplex, Chain.subject_extend, hlength, matchLeftward, hlink, hcompound]
  simp only [view.matchLeftward_extend chain combinator compound (Nat.le_refl _), acceptsComplex]

end ElementView

end FlatTree.Selector
