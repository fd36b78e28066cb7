import FlatTree.Selector.Matching

/-!
# Views that mirror each other

A view mirrors another one along a map of nodes if mapped nodes have the same features and the nodes
related to them are mapped as well.  Matching asks for nothing else, so a selector list accepts a node in
the one view exactly where it accepts the mapped node in the other.  Since only elements match, it is enough
for two views of the same nodes to agree on the elements.
-/

namespace FlatTree.Selector.ElementView

variable {ν κ : Type}

/-- Two nodes of two views have the same features. -/
structure Alike (view : ElementView ν) (other : ElementView κ) (node : ν) (image : κ) : Prop where
  isElement : other.isElement image = view.isElement node
  isHtml : other.isHtml image = view.isHtml node
  localName : other.localName image = view.localName node
  id : other.id image = view.id node
  hasClass : ∀ name, other.hasClass image name = view.hasClass node name
  attributeValue : ∀ name, other.attributeValue image name = view.attributeValue node name
  rank : other.rank image = view.rank node

/-- The view of the images mirrors the other view on a set of nodes that relations do not leave. -/
structure Mirrors (view : ElementView ν) (other : ElementView κ) (shown : ν → Prop)
    (image : ν → κ) : Prop where
  alike : ∀ node, shown node → Alike view other node (image node)
  related : ∀ combinator node, shown node →
    other.related combinator (image node) = (view.related combinator node).map image
  shown_of_related : ∀ combinator node, shown node → ∀ candidate ∈ view.related combinator node,
    shown candidate

variable {view : ElementView ν} {other : ElementView κ}

section Alike

variable {node : ν} {image : κ}

theorem Alike.hasFeature (halike : Alike view other node image) (feature : Feature) :
    other.hasFeature image feature = view.hasFeature node feature := by
  have hrank : other.rankOf image = view.rankOf node := by
    rw [rankOf, rankOf, halike.rank]
  cases feature with
  | type name =>
      rw [ElementView.hasFeature, ElementView.hasFeature, hasType, hasType, halike.isHtml,
        halike.localName]
  | universal => rfl
  | hasId name => rw [ElementView.hasFeature, ElementView.hasFeature, halike.id]
  | hasClass name => exact halike.hasClass name
  | hasAttribute test =>
      rw [ElementView.hasFeature, ElementView.hasFeature, passes, passes, halike.attributeValue]
  | nthChild nth => rw [ElementView.hasFeature, ElementView.hasFeature, hrank]
  | nthLastChild nth => rw [ElementView.hasFeature, ElementView.hasFeature, hrank]
  | firstChild => rw [ElementView.hasFeature, ElementView.hasFeature, hrank]
  | lastChild => rw [ElementView.hasFeature, ElementView.hasFeature, hrank]
  | onlyChild => rw [ElementView.hasFeature, ElementView.hasFeature, hrank]

mutual

theorem Alike.acceptsSimple (halike : Alike view other node image) (simple : Simple) :
    other.acceptsSimple image simple = view.acceptsSimple node simple := by
  cases simple with
  | feature feature => exact halike.hasFeature feature
  | not alternatives =>
      rw [ElementView.acceptsSimple, ElementView.acceptsSimple,
        halike.acceptsAnySubject alternatives]
termination_by structural simple

theorem Alike.acceptsAll (halike : Alike view other node image) (simples : List Simple) :
    other.acceptsAll image simples = view.acceptsAll node simples := by
  cases simples with
  | nil => rfl
  | cons simple simples =>
      rw [ElementView.acceptsAll, ElementView.acceptsAll, halike.acceptsSimple simple,
        halike.acceptsAll simples]
termination_by structural simples

theorem Alike.acceptsSubject (halike : Alike view other node image) (chain : Chain Simple) :
    other.acceptsSubject image chain = view.acceptsSubject node chain := by
  cases chain with
  | last compound =>
      rw [ElementView.acceptsSubject, ElementView.acceptsSubject, halike.isElement,
        halike.acceptsAll compound]
  | link compound combinator rest => exact halike.acceptsSubject rest
termination_by structural chain

theorem Alike.acceptsAnySubject (halike : Alike view other node image)
    (alternatives : List (Chain Simple)) :
    other.acceptsAnySubject image alternatives = view.acceptsAnySubject node alternatives := by
  cases alternatives with
  | nil => rfl
  | cons chain chains =>
      rw [ElementView.acceptsAnySubject, ElementView.acceptsAnySubject, halike.acceptsSubject chain,
        halike.acceptsAnySubject chains]
termination_by structural alternatives

end

theorem Alike.acceptsCompound (halike : Alike view other node image) (compound : Compound) :
    other.acceptsCompound image compound = view.acceptsCompound node compound := by
  rw [ElementView.acceptsCompound, ElementView.acceptsCompound, halike.isElement,
    halike.acceptsAll]

end Alike

variable {shown : ν → Prop} {image : ν → κ} (hmirrors : Mirrors view other shown image)

include hmirrors

theorem Mirrors.matchLeftward (chain : Complex) (matched : Nat) {node : ν} (hnode : shown node) :
    other.matchLeftward chain matched (image node) = view.matchLeftward chain matched node := by
  induction matched generalizing node with
  | zero => rfl
  | succ left ih =>
      rw [ElementView.matchLeftward, ElementView.matchLeftward]
      cases chain.links[left]? with
      | none => rfl
      | some link =>
          cases chain.compoundAt? left with
          | none => rfl
          | some compound =>
              dsimp only
              rw [Bool.eq_iff_iff, hmirrors.related link.1 node hnode, List.any_map, List.any_eq_true,
                List.any_eq_true]
              apply exists_congr
              intro candidate
              apply and_congr_right
              intro hcandidate
              have hshown := hmirrors.shown_of_related link.1 node hnode candidate hcandidate
              rw [Function.comp_apply, (hmirrors.alike candidate hshown).acceptsCompound, ih hshown]

theorem Mirrors.acceptsList (alternatives : SelectorList) {node : ν} (hnode : shown node) :
    other.acceptsList (image node) alternatives = view.acceptsList node alternatives := by
  have hchain (chain : Complex) :
      other.acceptsComplex (image node) chain = view.acceptsComplex node chain := by
    rw [acceptsComplex, acceptsComplex, (hmirrors.alike node hnode).acceptsCompound,
      hmirrors.matchLeftward chain _ hnode]
  rw [ElementView.acceptsList, ElementView.acceptsList, funext hchain]

omit hmirrors

/-! ## Views that agree on elements -/

/-- Two views of the same nodes in which the same nodes are elements, with the same features and with the
same elements related to them. -/
structure Agree (view other : ElementView ν) : Prop where
  isElement : ∀ node, other.isElement node = view.isElement node
  alike : ∀ node, view.isElement node = true → Alike view other node node
  mem_related_iff : ∀ combinator node candidate, view.isElement node = true →
    view.isElement candidate = true →
      (candidate ∈ other.related combinator node ↔ candidate ∈ view.related combinator node)

section Agree

variable {other : ElementView ν} (hagree : Agree view other)

include hagree

theorem Agree.acceptsCompound (node : ν) (compound : Compound) :
    other.acceptsCompound node compound = view.acceptsCompound node compound := by
  cases helement : view.isElement node with
  | true => exact (hagree.alike node helement).acceptsCompound compound
  | false =>
      rw [ElementView.acceptsCompound, ElementView.acceptsCompound, hagree.isElement, helement,
        Bool.false_and, Bool.false_and]

theorem Agree.matchLeftward (chain : Complex) (matched : Nat) {node : ν}
    (hnode : view.isElement node = true) :
    other.matchLeftward chain matched node = view.matchLeftward chain matched node := by
  induction matched generalizing node with
  | zero => rfl
  | succ left ih =>
      rw [ElementView.matchLeftward, ElementView.matchLeftward]
      cases chain.links[left]? with
      | none => rfl
      | some link =>
          cases chain.compoundAt? left with
          | none => rfl
          | some compound =>
              dsimp only
              rw [Bool.eq_iff_iff, List.any_eq_true, List.any_eq_true]
              apply exists_congr
              intro candidate
              rw [hagree.acceptsCompound]
              cases helement : view.isElement candidate with
              | true => rw [hagree.mem_related_iff link.1 node candidate hnode helement, ih helement]
              | false => simp [ElementView.acceptsCompound, helement]

theorem Agree.acceptsList (alternatives : SelectorList) (node : ν) :
    other.acceptsList node alternatives = view.acceptsList node alternatives := by
  have hchain (chain : Complex) : other.acceptsComplex node chain = view.acceptsComplex node chain := by
    rw [acceptsComplex, acceptsComplex, hagree.acceptsCompound]
    cases helement : view.isElement node with
    | true => rw [hagree.matchLeftward chain _ helement]
    | false => simp [ElementView.acceptsCompound, helement]
  rw [ElementView.acceptsList, ElementView.acceptsList, funext hchain]

end Agree

end FlatTree.Selector.ElementView
