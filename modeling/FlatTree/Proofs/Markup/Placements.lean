import FlatTree.Markup.Load
import FlatTree.Proofs.Text.Case
import Mathlib.Data.List.Basic

/-!
# Placements of sources

The nodes that the sources of a document become, in document order and without a store.  A node is named by
its place in that order, behind the document.  On a node hang the sources below it, apart from blank text:
the first template below an element that declares a shadow root becomes it, and all else is placed as it is.
-/

namespace FlatTree.Markup

namespace Source

def children : Source → List Source
  | .element _ children _ => children
  | _ => []

def contents : Source → List Source
  | .element _ _ contents => contents
  | _ => []

def declaredMode : Source → Option ShadowMode
  | .element head _ _ => head.declaredMode
  | _ => none

/-- Text of white space alone becomes no node. -/
def isLeftOut : Source → Bool
  | .text content => content.toList.all Text.isBlank
  | _ => false

def modeWord : ShadowMode → String
  | .opened => "open"
  | .closed => "closed"

/-- An attribute of a template that could declare a mode, by its newer or its older name. -/
def NamesMode (pair : String × String) : Prop :=
  pair.1 = "shadowrootmode" ∨ pair.1 = "shadowroot"

/-- Only templates declare modes, by the word for the mode, in any letter case, as the value of the first
attribute that could declare one. -/
inductive Declares (mode : ShadowMode) : Source → Prop where
  | template {head : ElementHead} {children contents : List Source} {front back : List (String × String)}
      {pair : String × String} (name : head.name = "template")
      (attributes : head.attributes = front ++ pair :: back) (none_before : ∀ other ∈ front, ¬ NamesMode other)
      (names : NamesMode pair) (word : Text.InAnyCase (modeWord mode).toList pair.2.toList) :
      Declares mode (.element head children contents)

theorem inAnyCase_modeWord_iff (mode : ShadowMode) (value : String) :
    Text.InAnyCase (modeWord mode).toList value.toList ↔
      (if Text.lowered value = "open" then some ShadowMode.opened
        else if Text.lowered value = "closed" then some ShadowMode.closed
        else none) = some mode := by
  have hletters : ∀ letter ∈ (modeWord mode).toList, letter.isLower = true := by
    rw [← List.all_eq_true]
    cases mode <;> rfl
  rw [← Text.lowered_eq_iff_inAnyCase hletters]
  cases mode with
  | opened => simp [modeWord]
  | closed =>
      rw [modeWord]
      split
      · rename_i hopen
        simp [hopen]
      · simp

theorem find?_namesMode_eq_some_iff {attributes : List (String × String)} {pair : String × String} :
    attributes.find? (fun pair => pair.1 = "shadowrootmode" || pair.1 = "shadowroot") = some pair ↔
      NamesMode pair ∧ ∃ front back, attributes = front ++ pair :: back ∧
        ∀ other ∈ front, ¬ NamesMode other := by
  simp only [List.find?_eq_some_iff_append, NamesMode, Bool.or_eq_true, decide_eq_true_eq,
    Bool.not_eq_true', Bool.or_eq_false_iff, decide_eq_false_iff_not, not_or]

/-- The mode of a source is the one that the template declares. -/
theorem declaredMode_eq_some_iff {source : Source} {mode : ShadowMode} :
    source.declaredMode = some mode ↔ Declares mode source := by
  constructor
  · intro hmode
    cases source with
    | text | comment => cases hmode
    | element head children contents =>
        rw [declaredMode, ElementHead.declaredMode] at hmode
        split at hmode
        · rename_i hname
          split at hmode
          · contradiction
          · rename_i pair hfind
            obtain ⟨hpair, front, back, hsplit, hfront⟩ := find?_namesMode_eq_some_iff.mp hfind
            exact .template hname hsplit hfront hpair ((inAnyCase_modeWord_iff mode pair.2).mpr hmode)
        · contradiction
  · intro hdeclares
    cases hdeclares with
    | @template head children contents front back pair hname hsplit hfront hpair hword =>
        have hfind := find?_namesMode_eq_some_iff.mpr ⟨hpair, front, back, hsplit, hfront⟩
        rw [declaredMode, ElementHead.declaredMode, if_pos hname, hfind]
        exact (inAnyCase_modeWord_iff mode pair.2).mp hword

theorem declaredMode_of_isLeftOut {source : Source} (hblank : source.isLeftOut = true) :
    source.declaredMode = none := by
  cases source with
  | text => rfl
  | comment | element => cases hblank

end Source

/-- The element that a start tag describes. -/
def ElementHead.element (head : ElementHead) : Element :=
  head.attributes.foldl
    (fun element pair =>
      { element with attributes := Store.setPair (Text.lowered pair.1) pair.2 element.attributes })
    (Store.newElement (some head.space) head.name)

/-- A source and the node that it hangs on. -/
structure Placement where
  source : Source
  above : Nat
  /-- The mode of the shadow root that a template becomes.  All else is placed as it is. -/
  root : Option ShadowMode

namespace Placement

def content (placement : Placement) : Content :=
  match placement.root, placement.source with
  | some mode, _ => .shadowRoot mode
  | none, .element head _ _ => .element head.element
  | none, .text content => .text content
  | none, .comment content => .comment content

def entry (placement : Placement) : Content × Option Nat :=
  (placement.content, some placement.above)

/-- What is placed below the new node: the contents of a template that became a shadow root, the children
of all else. -/
def sources (placement : Placement) : List Source :=
  if placement.root.isSome then placement.source.contents else placement.source.children

end Placement

/-- A source right below a node.  Whether the node can still host a shadow root decides what becomes of a
template. -/
def Source.placement (source : Source) (above : Nat) (free : Bool) : Placement :=
  ⟨source, above, if free then source.declaredMode else none⟩

@[simp]
theorem Source.above_placement (source : Source) (above : Nat) (free : Bool) :
    (source.placement above free).above = above :=
  rfl

/-- What holds of no source, and of sources when it holds of what is placed below the first one and of the
others, holds of all sources. -/
@[elab_as_elim]
theorem Source.list_induction {motive : List Source → Prop} (nil : motive [])
    (cons : ∀ source sources,
      (∀ placement : Placement, placement.source = source → motive placement.sources) →
        motive sources → motive (source :: sources)) : ∀ sources, motive sources
  | [] => nil
  | source :: sources => by
      refine cons source sources (fun placement hsource => ?_) (list_induction nil cons sources)
      rw [Placement.sources, hsource]
      cases source with
      | text content => exact (ite_self (c := placement.root.isSome = true) []).symm ▸ nil
      | comment content => exact (ite_self (c := placement.root.isSome = true) []).symm ▸ nil
      | element head children contents =>
          split
          · exact list_induction nil cons contents
          · exact list_induction nil cons children

mutual

/-- The nodes that a source becomes where the next node has the number `first`. -/
def placed (first above : Nat) (free : Bool) : Source → List Placement
  | .text content =>
    if content.toList.all Text.isBlank then [] else [⟨.text content, above, none⟩]
  | .comment content => [⟨.comment content, above, none⟩]
  | .element head children contents =>
    match if free then head.declaredMode else none with
    | some mode =>
      ⟨.element head children contents, above, some mode⟩ :: placedAll (first + 1) first false contents
    | none =>
      ⟨.element head children contents, above, none⟩ :: placedAll (first + 1) first true children
termination_by structural source => source

def placedAll (first above : Nat) (free : Bool) : List Source → List Placement
  | [] => []
  | source :: sources =>
    let nodes := placed first above free source
    nodes ++ placedAll (first + nodes.length) above (free && source.declaredMode.isNone) sources
termination_by structural sources => sources

end

/-- The nodes that the sources of a document become, the first of them being node one. -/
def placements (sources : List Source) : List Placement :=
  placedAll 1 0 false sources

/-- What becomes of the sources right below a node. -/
def siblings (above : Nat) (free : Bool) : List Source → List Placement
  | [] => []
  | source :: sources =>
    if source.isLeftOut then
      siblings above free sources
    else
      source.placement above free :: siblings above (free && source.declaredMode.isNone) sources

/-- The sources right below a node, placed as they are. -/
def plainSiblings (above : Nat) (sources : List Source) : List Placement :=
  (sources.filter fun source => !source.isLeftOut).map fun source => ⟨source, above, none⟩

/-! ## Siblings -/

theorem plainSiblings_cons (above : Nat) (source : Source) (sources : List Source) :
    plainSiblings above (source :: sources) =
      if source.isLeftOut then plainSiblings above sources
      else ⟨source, above, none⟩ :: plainSiblings above sources := by
  rw [plainSiblings, List.filter_cons]
  cases source.isLeftOut <;> rfl

/-- Sources of which none can become a shadow root are placed as they are. -/
theorem siblings_eq_plainSiblings (above : Nat) {free : Bool} {sources : List Source}
    (hplain : free = true → ∀ source ∈ sources, source.declaredMode = none) :
    siblings above free sources = plainSiblings above sources := by
  induction sources with
  | nil => rfl
  | cons source sources ih =>
      have hfirst : (if free then source.declaredMode else none) = none := by
        cases free with
        | false => rfl
        | true => exact hplain rfl source List.mem_cons_self
      have hfree : (free && source.declaredMode.isNone) = free := by
        cases free with
        | false => rfl
        | true => rw [hplain rfl source List.mem_cons_self]; rfl
      have hrest := ih fun hfree other hother => hplain hfree other (List.mem_cons_of_mem source hother)
      rw [siblings, plainSiblings_cons, Source.placement, hfirst, hfree, hrest]

/-- The first template that declares a shadow root becomes it. -/
theorem siblings_append_cons (above : Nat) {front back : List Source} {child : Source}
    {mode : ShadowMode} (hfront : ∀ source ∈ front, source.declaredMode = none)
    (hchild : child.declaredMode = some mode) :
    siblings above true (front ++ child :: back) =
      plainSiblings above front ++ ⟨child, above, some mode⟩ :: plainSiblings above back := by
  induction front with
  | nil =>
      have hshown : child.isLeftOut = false := by
        rw [Bool.eq_false_iff]
        intro hblank
        rw [Source.declaredMode_of_isLeftOut hblank] at hchild
        contradiction
      have hback : siblings above false back = plainSiblings above back :=
        siblings_eq_plainSiblings above fun hfree => absurd hfree Bool.false_ne_true
      rw [List.nil_append, siblings, hshown, if_neg Bool.false_ne_true, Source.placement, if_pos rfl,
        hchild, Option.isNone_some, Bool.and_false, hback]
      rfl
  | cons source front ih =>
      rw [List.forall_mem_cons] at hfront
      rw [List.cons_append, siblings, plainSiblings_cons, Source.placement, if_pos rfl, hfront.1,
        Option.isNone_none, Bool.and_true, ih hfront.2]
      split <;> rfl

/-! ## Placements in document order -/

theorem placedAll_cons_of_isLeftOut (first above : Nat) (free : Bool) {source : Source}
    (hblank : source.isLeftOut = true) (sources : List Source) :
    placedAll first above free (source :: sources) = placedAll first above free sources := by
  have hnone : placed first above free source = [] := by
    cases source with
    | text content => exact if_pos hblank
    | comment | element => cases hblank
  rw [placedAll, hnone, Source.declaredMode_of_isLeftOut hblank, Option.isNone_none, Bool.and_true]
  rfl

/-- A source is placed before what stands in it, and that before the other sources. -/
theorem placedAll_cons (first above : Nat) (free : Bool) {source : Source}
    (hshown : source.isLeftOut = false) (sources : List Source) :
    placedAll first above free (source :: sources) =
      let placement := source.placement above free
      let inner := placedAll (first + 1) first placement.root.isNone placement.sources
      placement :: (inner ++ placedAll (first + 1 + inner.length) above
        (free && source.declaredMode.isNone) sources) := by
  have hplaced : placed first above free source = source.placement above free ::
      placedAll (first + 1) first (source.placement above free).root.isNone
        (source.placement above free).sources := by
    cases source with
    | text content =>
        have hblank : ¬ content.toList.all Text.isBlank = true := Bool.eq_false_iff.mp hshown
        rw [placed, if_neg hblank]
        cases free <;> rfl
    | comment content => cases free <;> rfl
    | element head children contents =>
        rw [placed, Source.placement, Placement.sources, Source.declaredMode]
        cases (if free then head.declaredMode else none) <;> rfl
  rw [placedAll, hplaced]
  dsimp only
  rw [List.cons_append, List.length_cons, Nat.add_right_comm, Nat.add_assoc]

/-- A node is the first one, stands in it, or stands behind all that stands in it. -/
theorem cases_getElem?_placedAll_cons {first above index : Nat} {free : Bool} {source : Source}
    (hshown : source.isLeftOut = false) {sources : List Source} {placement : Placement}
    (hplacement : (placedAll first above free (source :: sources))[index]? = some placement) :
    let root := source.placement above free
    let inner := placedAll (first + 1) first root.root.isNone root.sources
    index = 0 ∧ placement = root ∨
      (∃ place, index = place + 1 ∧ place < inner.length ∧ inner[place]? = some placement) ∨
      ∃ place, index = inner.length + place + 1 ∧
        (placedAll (first + 1 + inner.length) above (free && source.declaredMode.isNone)
          sources)[place]? = some placement := by
  intro root inner
  rw [placedAll_cons first above free hshown] at hplacement
  cases index with
  | zero => exact .inl ⟨rfl, (Option.some.inj hplacement).symm⟩
  | succ index =>
      rw [List.getElem?_cons_succ] at hplacement
      rcases Nat.lt_or_ge index inner.length with hlt | hge
      · rw [List.getElem?_append_left hlt] at hplacement
        exact .inr (.inl ⟨index, rfl, hlt, hplacement⟩)
      · rw [List.getElem?_append_right hge] at hplacement
        refine .inr (.inr ⟨index - inner.length, ?_, hplacement⟩)
        rw [Nat.add_sub_cancel' hge]

/-- Every node hangs on the given one or on an older one of the placed. -/
theorem above_of_getElem? {sources : List Source} {first above index : Nat} {free : Bool}
    {placement : Placement} (hplacement : (placedAll first above free sources)[index]? = some placement) :
    placement.above = above ∨ first ≤ placement.above ∧ placement.above < first + index := by
  induction sources using Source.list_induction generalizing first above index free with
  | nil => contradiction
  | cons source sources hinner ih =>
      cases hshown : source.isLeftOut with
      | true =>
          rw [placedAll_cons_of_isLeftOut first above free hshown] at hplacement
          exact ih hplacement
      | false =>
          rcases cases_getElem?_placedAll_cons hshown hplacement with ⟨-, rfl⟩ | ⟨place, rfl, -, hplace⟩ |
            ⟨place, rfl, hplace⟩
          · exact .inl rfl
          · rcases hinner _ rfl hplace with habove | habove
            · omega
            · omega
          · rcases ih hplace with habove | habove
            · exact .inl habove
            · omega

theorem above_of_mem {sources : List Source} {first above : Nat} {free : Bool} {placement : Placement}
    (hplacement : placement ∈ placedAll first above free sources) :
    placement.above = above ∨ first ≤ placement.above ∧
      placement.above < first + (placedAll first above free sources).length := by
  obtain ⟨index, hindex⟩ := List.mem_iff_getElem?.mp hplacement
  have hlt := (List.getElem?_eq_some_iff.mp hindex).1
  rcases above_of_getElem? hindex with habove | habove
  · exact .inl habove
  · omega

/-- What hangs on a node is looked for among the nodes that can hang on it. -/
theorem filter_placedAll_eq_nil {sources : List Source} {first above node : Nat} {free : Bool}
    (hnode : node ≠ above)
    (hrange : node < first ∨ first + (placedAll first above free sources).length ≤ node) :
    (placedAll first above free sources).filter (·.above = node) = [] := by
  rw [List.filter_eq_nil_iff]
  intro placement hplacement
  have habove := above_of_mem hplacement
  rw [decide_eq_true_eq]
  omega

/-- What hangs on the node above are the sources themselves. -/
theorem filter_placedAll_above {sources : List Source} {first above : Nat} {free : Bool}
    (habove : above < first) :
    (placedAll first above free sources).filter (·.above = above) = siblings above free sources := by
  induction sources generalizing first free with
  | nil => rfl
  | cons source sources ih =>
      cases hshown : source.isLeftOut with
      | true =>
          rw [placedAll_cons_of_isLeftOut first above free hshown, siblings, hshown, if_pos rfl]
          exact ih habove
      | false =>
          have hlater : above < first + 1 := Nat.lt_succ_of_lt habove
          rw [placedAll_cons first above free hshown, siblings, hshown, if_neg Bool.false_ne_true]
          dsimp only
          rw [List.filter_cons, Source.above_placement, if_pos (decide_eq_true rfl), List.filter_append,
            filter_placedAll_eq_nil (Nat.ne_of_lt habove) (.inl hlater), List.nil_append,
            ih (Nat.lt_add_right _ hlater)]

/-- What hangs on a placed node are the sources below it. -/
theorem filter_placedAll_placed {sources : List Source} {first above index node : Nat} {free : Bool}
    (habove : above < first) (hnode : node = first + index) {placement : Placement}
    (hplacement : (placedAll first above free sources)[index]? = some placement) :
    (placedAll first above free sources).filter (·.above = node) =
      siblings node placement.root.isNone placement.sources := by
  induction sources using Source.list_induction generalizing first above index free with
  | nil => contradiction
  | cons source sources hinner ih =>
      cases hshown : source.isLeftOut with
      | true =>
          rw [placedAll_cons_of_isLeftOut first above free hshown] at hplacement ⊢
          exact ih habove hnode hplacement
      | false =>
          have hcases := cases_getElem?_placedAll_cons hshown hplacement
          have hfirst : ¬ decide ((source.placement above free).above = node) = true := by
            rw [decide_eq_true_eq, Source.above_placement]
            omega
          rw [placedAll_cons first above free hshown]
          dsimp only at hcases ⊢
          rw [List.filter_cons, if_neg hfirst, List.filter_append]
          rcases hcases with ⟨rfl, rfl⟩ | ⟨place, rfl, hlt, hplace⟩ | ⟨place, rfl, hplace⟩
          · obtain rfl : node = first := hnode
            rw [filter_placedAll_above (Nat.lt_succ_self node),
              filter_placedAll_eq_nil (by omega) (.inl (by omega)), List.append_nil]
          · rw [hinner _ rfl (Nat.lt_succ_self first) (by omega) hplace,
              filter_placedAll_eq_nil (by omega) (.inl (by omega)), List.append_nil]
          · rw [filter_placedAll_eq_nil (by omega) (.inr (by omega)), List.nil_append,
              ih (by omega) (by omega) hplace]

/-- What hangs on a node of a document are the sources below it. -/
theorem filter_placements {sources : List Source} {index : Nat} {placement : Placement}
    (hplacement : (placements sources)[index]? = some placement) :
    (placements sources).filter (·.above = index + 1) =
      siblings (index + 1) placement.root.isNone placement.sources :=
  filter_placedAll_placed Nat.zero_lt_one (Nat.add_comm index 1) hplacement

/-- A host with two templates that declare a shadow root: the second one is an element, and what stands in
it is not placed. -/
example :
    let template (mode inside : String) : Source :=
      .element ⟨htmlNamespace, "template", [("shadowrootmode", mode)]⟩ [] [.text inside]
    let host : Source :=
      .element ⟨htmlNamespace, "div", []⟩ [.text " ", template "open" "a", template "closed" "b", .text "c"] []
    (placements [host]).map (fun placement => (placement.above, placement.root)) =
      [(0, none), (1, some .opened), (2, none), (1, none), (1, none)] := by
  decide +kernel

/-- No blank text is placed. -/
theorem isLeftOut_of_mem {sources : List Source} {first above : Nat} {free : Bool} {placement : Placement}
    (hplacement : placement ∈ placedAll first above free sources) :
    placement.source.isLeftOut = false := by
  induction sources using Source.list_induction generalizing first above free with
  | nil => contradiction
  | cons source sources hinner ih =>
      cases hshown : source.isLeftOut with
      | true =>
          rw [placedAll_cons_of_isLeftOut first above free hshown] at hplacement
          exact ih hplacement
      | false =>
          rw [placedAll_cons first above free hshown] at hplacement
          rcases List.mem_cons.mp hplacement with rfl | hplacement
          · exact hshown
          · rcases List.mem_append.mp hplacement with hplacement | hplacement
            · exact hinner _ rfl hplacement
            · exact ih hplacement

/-! ## Contents -/

namespace Placement

variable {placement : Placement}

theorem nodeType_content_iff :
    placement.content.nodeType = .shadowRoot ↔ placement.root.isSome = true := by
  obtain ⟨source, above, root⟩ := placement
  cases root with
  | some mode => exact iff_of_true rfl rfl
  | none => cases source <;> simp [content, Content.nodeType]

theorem of_content_eq_element {element : Element} (hcontent : placement.content = .element element) :
    placement.root = none ∧ ∃ head children contents,
      placement.source = .element head children contents ∧ head.element = element := by
  obtain ⟨source, above, root⟩ := placement
  cases root with
  | some found => cases hcontent
  | none =>
      cases source with
      | element head children contents =>
          exact ⟨rfl, head, children, contents, rfl, Content.element.inj hcontent⟩
      | text | comment => cases hcontent

theorem of_content_eq_text {text : String} (hcontent : placement.content = .text text) :
    placement.source = .text text := by
  obtain ⟨source, above, root⟩ := placement
  cases root with
  | some found => cases hcontent
  | none =>
      cases source with
      | text content => rw [Content.text.inj hcontent]
      | element | comment => cases hcontent

end Placement

end FlatTree.Markup
