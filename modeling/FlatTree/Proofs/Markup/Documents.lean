import FlatTree.Markup.Document
import FlatTree.Proofs.Text.Case

/-!
# What documents are made of

The parts of a document that a text describes are in their proper forms.  HTML elements and their attributes
have names in lower case, and no two attributes of one element have the same name.  HTML templates alone
have contents, which stand in place of children.  Reading a text on preserves this, and so does every item
that is added to a document.
-/

namespace FlatTree.Markup

theorem lowered_lowerName (name : List Char) : Text.lowered (lowerName name) = lowerName name := by
  rw [lowerName, Text.lowered, String.toList_ofList,
    Text.asciiLower_of_not_isUpper fun _ => Text.isUpper_of_mem_asciiLower]

/-- The names of attributes are in lower case, and each stands once. -/
structure NamedOnce (attributes : List (String × String)) : Prop where
  lower : ∀ pair ∈ attributes, Text.lowered pair.1 = pair.1
  nodup : (attributes.map Prod.fst).Nodup

theorem namedOnce_nil : NamedOnce [] where
  lower := by simp
  nodup := List.nodup_nil

theorem NamedOnce.merge {attributes others : List (String × String)} (hnamed : NamedOnce attributes)
    (hothers : NamedOnce others) : NamedOnce (mergeAttributes attributes others) where
  lower := by
    intro pair hpair
    rcases List.mem_append.mp hpair with hpair | hpair
    · exact hnamed.lower pair hpair
    · exact hothers.lower pair (List.mem_of_mem_filter hpair)
  nodup := by
    rw [mergeAttributes, List.map_append]
    refine hnamed.nodup.append (hothers.nodup.sublist (List.filter_sublist.map Prod.fst)) ?_
    intro name hname hother
    obtain ⟨other, hmem, rfl⟩ := List.mem_map.mp hother
    obtain ⟨pair, hpair, hsame⟩ := List.mem_map.mp hname
    have hnone := (List.mem_filter.mp hmem).2
    rw [Option.isNone_iff_eq_none, List.lookup_eq_none_iff] at hnone
    have hne := hnone pair hpair
    rw [hsame, bne_self_eq_false] at hne
    contradiction

/-! ## Tags -/

theorem namedOnce_firstAttributes {attributes : List (String × String)}
    (hlower : ∀ pair ∈ attributes, Text.lowered pair.1 = pair.1) :
    NamedOnce (firstAttributes attributes) := by
  induction attributes with
  | nil => exact namedOnce_nil
  | cons pair attributes ih =>
      rw [List.forall_mem_cons] at hlower
      have hrest := ih hlower.2
      rw [firstAttributes]
      refine ⟨?_, ?_⟩
      · rw [List.forall_mem_cons]
        exact ⟨hlower.1, fun other hother => hrest.lower other (List.mem_of_mem_filter hother)⟩
      · rw [List.map_cons, List.nodup_cons]
        refine ⟨?_, hrest.nodup.sublist (List.filter_sublist.map Prod.fst)⟩
        intro hmem
        obtain ⟨other, hother, hsame⟩ := List.mem_map.mp hmem
        exact of_decide_eq_true (List.mem_filter.mp hother).2 hsame

theorem lower_readTagRest (text : List Char) :
    ∀ pair ∈ (readTagRest text).attributes, Text.lowered pair.1 = pair.1 := by
  fun_induction readTagRest text with
  | case1 | case2 | case3 => simp
  | case4 c rest _ _ _ ih => exact ih
  | case5 c rest _ _ _ name behind _ value others ih =>
      rw [List.forall_mem_cons]
      exact ⟨lowered_lowerName _, ih⟩
  | case6 c rest _ _ _ name behind _ others ih =>
      rw [List.forall_mem_cons]
      exact ⟨lowered_lowerName _, ih⟩

structure StartTag.Proper (tag : StartTag) : Prop where
  name : Text.lowered tag.name = tag.name
  attributes : NamedOnce tag.attributes

theorem proper_of_next?_eq_start {foreign : Bool} {text rest : List Char} {tag : StartTag}
    (hnext : Token.next? foreign text = some (.start tag, rest)) : tag.Proper := by
  have hread (text : List Char) : (readStartTag text).1.Proper :=
    ⟨lowered_lowerName _, namedOnce_firstAttributes (lower_readTagRest _)⟩
  unfold Token.next? at hnext
  dsimp only at hnext
  split at hnext
  · contradiction
  · repeat' split at hnext
    all_goals cases hnext
    exact hread _

/-! ## Elements -/

structure ElementHead.Proper (head : ElementHead) : Prop where
  space_ne_empty : head.space ≠ ""
  name : head.space = htmlNamespace → Text.lowered head.name = head.name
  attributes : head.space = htmlNamespace → NamedOnce head.attributes

def ElementHead.IsHtmlTemplate (head : ElementHead) : Prop :=
  head.space = htmlNamespace ∧ head.name = "template"

theorem StartTag.Proper.ofTag {tag : StartTag} (htag : tag.Proper) {parent : Option ElementHead}
    (hparent : ∀ head ∈ parent, head.Proper) : (ElementHead.ofTag parent tag).Proper := by
  unfold ElementHead.ofTag
  extract_lets space
  have hspace : space ≠ "" := by
    unfold space
    split
    · repeat' split
      all_goals decide +kernel
    · cases parent with
      | none => decide +kernel
      | some head => exact (hparent head rfl).space_ne_empty
  split
  · exact ⟨hspace, fun _ => htag.name, fun _ => htag.attributes⟩
  · rename_i hforeign
    exact ⟨hspace, fun hhtml => absurd hhtml hforeign, fun hhtml => absurd hhtml hforeign⟩

/-! ## Sources -/

inductive Source.Proper : Source → Prop where
  | element (head : ElementHead) (children contents : List Source) (hhead : head.Proper)
      (hchildren : ∀ source ∈ children, source.Proper) (hcontents : ∀ source ∈ contents, source.Proper)
      (htemplate : head.IsHtmlTemplate → children = []) (hplain : ¬ head.IsHtmlTemplate → contents = []) :
      Proper (.element head children contents)
  | text (content : String) : Proper (.text content)
  | comment (content : String) : Proper (.comment content)

theorem proper_placeText {content : List Char} {sources : List Source}
    (hproper : ∀ source ∈ sources, source.Proper) :
    ∀ source ∈ placeText content sources, source.Proper := by
  unfold placeText
  split
  · rw [List.forall_mem_cons] at hproper ⊢
    exact ⟨.text _, hproper.2⟩
  · split
    · exact hproper
    · rw [List.forall_mem_cons]
      exact ⟨.text _, hproper⟩

structure OpenElement.Proper (element : OpenElement) : Prop where
  head : element.head.Proper
  placed : ∀ source ∈ element.placed, source.Proper

theorem OpenElement.Proper.whole {element : OpenElement} (hproper : element.Proper) :
    element.whole.Proper := by
  have hplaced : ∀ source ∈ element.placed.reverse, source.Proper := by
    intro source hsource
    exact hproper.placed source (List.mem_reverse.mp hsource)
  rw [OpenElement.whole]
  split
  · rename_i htemplate
    rw [Bool.and_eq_true, decide_eq_true_eq, decide_eq_true_eq] at htemplate
    exact .element _ _ _ hproper.head (by simp) hplaced (fun _ => rfl) (absurd htemplate)
  · rename_i hplain
    rw [Bool.and_eq_true, decide_eq_true_eq, decide_eq_true_eq] at hplain
    exact .element _ _ _ hproper.head hplaced (by simp) (fun htemplate => absurd htemplate hplain)
      fun _ => rfl

/-! ## Items -/

def Item.Proper : Item → Prop
  | .node source => source.Proper
  | .opens _ attributes => NamedOnce attributes
  | .closes _ => True

namespace Assembly

structure Proper (assembly : Assembly) : Prop where
  items : ∀ item ∈ assembly.items, item.Proper
  opened : ∀ element ∈ assembly.opened, element.Proper

namespace Proper

variable {assembly : Assembly}

theorem parent (hproper : assembly.Proper) : ∀ head ∈ assembly.parent, head.Proper := by
  intro head hhead
  obtain ⟨element, helement, rfl⟩ := Option.mem_map.mp hhead
  exact (hproper.opened element (List.mem_of_mem_head? helement)).head

theorem place (hproper : assembly.Proper) {source : Source} (hsource : source.Proper) :
    (assembly.place source).Proper := by
  rw [Assembly.place]
  split
  · exact ⟨List.forall_mem_cons.mpr ⟨hsource, hproper.items⟩, hproper.opened⟩
  · rename_i element opened hopened
    have helements := hproper.opened
    rw [hopened, List.forall_mem_cons] at helements
    refine ⟨hproper.items, List.forall_mem_cons.mpr ⟨⟨helements.1.head, ?_⟩, helements.2⟩⟩
    exact List.forall_mem_cons.mpr ⟨hsource, helements.1.placed⟩

theorem addText (hproper : assembly.Proper) (content : List Char) :
    (assembly.addText content).Proper := by
  rw [Assembly.addText]
  split
  · exact ⟨List.forall_mem_cons.mpr ⟨.text _, hproper.items⟩, hproper.opened⟩
  · rename_i element opened hopened
    have helements := hproper.opened
    rw [hopened, List.forall_mem_cons] at helements
    refine ⟨hproper.items, List.forall_mem_cons.mpr ⟨⟨helements.1.head, ?_⟩, helements.2⟩⟩
    exact proper_placeText helements.1.placed

theorem mark (hproper : assembly.Proper) {item : Item} (hitem : item.Proper) :
    (assembly.mark item).Proper := by
  rw [Assembly.mark]
  split
  · exact ⟨List.forall_mem_cons.mpr ⟨hitem, hproper.items⟩, hproper.opened⟩
  · exact hproper

theorem enter (hproper : assembly.Proper) {head : ElementHead} (hhead : head.Proper)
    (tagName : String) : (assembly.enter head tagName).Proper where
  items := hproper.items
  opened := List.forall_mem_cons.mpr ⟨⟨hhead, by simp⟩, hproper.opened⟩

theorem closeInnermost (hproper : assembly.Proper) : assembly.closeInnermost.Proper := by
  rw [Assembly.closeInnermost]
  split
  · exact hproper
  · rename_i element opened hopened
    have helements := hproper.opened
    rw [hopened, List.forall_mem_cons] at helements
    have houter : Assembly.Proper { assembly with opened } := ⟨hproper.items, helements.2⟩
    exact houter.place helements.1.whole

theorem closeRepeatedly (hproper : assembly.Proper) (count : Nat) :
    (Nat.repeat Assembly.closeInnermost count assembly).Proper := by
  induction count with
  | zero => exact hproper
  | succ count ih => exact ih.closeInnermost

theorem close (hproper : assembly.Proper) (name : String) : (assembly.close name).Proper := by
  rw [Assembly.close]
  split
  · exact hproper.closeRepeatedly _
  · split
    · exact hproper.mark trivial
    · exact hproper

theorem start (hproper : assembly.Proper) {tag : StartTag} (htag : tag.Proper) (rest : List Char) :
    (assembly.start tag rest).1.Proper := by
  have hhead := htag.ofTag hproper.parent
  have hempty : (Source.element (ElementHead.ofTag assembly.parent tag) [] []).Proper :=
    .element _ _ _ hhead (by simp) (by simp) (fun _ => rfl) fun _ => rfl
  unfold Assembly.start
  dsimp only
  split
  · rename_i hhtml
    split
    · exact hproper.mark (hhead.attributes hhtml)
    · exact ((hproper.enter hhead _).addText _).closeInnermost
    · split
      · exact hproper.place hempty
      · exact hproper.enter hhead _
  · split
    · exact hproper.place hempty
    · exact hproper.enter hhead _

theorem read (hproper : assembly.Proper) (text : List Char) : (assembly.read text).Proper := by
  fun_induction Assembly.read assembly text with
  | case1 => exact hproper
  | case2 assembly text tag rest hnext started ih =>
      exact ih (hproper.start (proper_of_next?_eq_start hnext) rest)
  | case3 assembly text name rest hnext ih => exact ih (hproper.close name)
  | case4 assembly text content rest hnext ih => exact ih (hproper.addText content)
  | case5 assembly text content rest hnext ih => exact ih (hproper.place (.comment _))
  | case6 assembly text rest hnext ih => exact ih hproper

end Proper

end Assembly

theorem proper_itemsOf (text : String) : ∀ item ∈ itemsOf text, item.Proper := by
  have hempty : Assembly.empty.Proper := ⟨by simp [Assembly.empty], by simp [Assembly.empty]⟩
  intro item hitem
  rw [itemsOf, Assembly.finish, List.mem_reverse] at hitem
  exact ((hempty.read _).closeRepeatedly _).items item hitem

/-! ## Documents -/

namespace Draft

structure Proper (draft : Draft) : Prop where
  htmlAttributes : NamedOnce draft.htmlAttributes
  headAttributes : NamedOnce draft.headAttributes
  bodyAttributes : NamedOnce draft.bodyAttributes
  front : ∀ source ∈ draft.front, source.Proper
  beforeHead : ∀ source ∈ draft.beforeHead, source.Proper
  head : ∀ source ∈ draft.head, source.Proper
  between : ∀ source ∈ draft.between, source.Proper
  body : ∀ source ∈ draft.body, source.Proper
  afterBody : ∀ source ∈ draft.afterBody, source.Proper
  back : ∀ source ∈ draft.back, source.Proper

theorem proper_empty : empty.Proper := by
  constructor
  iterate 3 exact namedOnce_nil
  all_goals simp [empty]

namespace Proper

variable {draft : Draft}

theorem addComment (hproper : draft.Proper) {comment : Source} (hcomment : comment.Proper) :
    (draft.addComment comment).Proper := by
  rw [Draft.addComment]
  split
  · exact { hproper with front := List.forall_mem_cons.mpr ⟨hcomment, hproper.front⟩ }
  · exact { hproper with beforeHead := List.forall_mem_cons.mpr ⟨hcomment, hproper.beforeHead⟩ }
  · exact { hproper with head := List.forall_mem_cons.mpr ⟨hcomment, hproper.head⟩ }
  · exact { hproper with between := List.forall_mem_cons.mpr ⟨hcomment, hproper.between⟩ }
  · exact { hproper with body := List.forall_mem_cons.mpr ⟨hcomment, hproper.body⟩ }
  · exact { hproper with afterBody := List.forall_mem_cons.mpr ⟨hcomment, hproper.afterBody⟩ }
  · exact { hproper with back := List.forall_mem_cons.mpr ⟨hcomment, hproper.back⟩ }

theorem addToBody (hproper : draft.Proper) (content : List Char) : (draft.addToBody content).Proper :=
  { hproper with body := proper_placeText hproper.body }

theorem addBlank (hproper : draft.Proper) (content : List Char) : (draft.addBlank content).Proper := by
  rw [Draft.addBlank]
  split
  · exact hproper
  · exact hproper
  · exact { hproper with head := proper_placeText hproper.head }
  · exact { hproper with between := proper_placeText hproper.between }
  all_goals exact hproper.addToBody content

theorem addText (hproper : draft.Proper) (content : List Char) : (draft.addText content).Proper := by
  rw [Draft.addText]
  split
  · exact hproper.addBlank _
  · exact { (hproper.addBlank _).addToBody _ with }

theorem addElement (hproper : draft.Proper) (head : ElementHead) {element : Source}
    (helement : element.Proper) : (draft.addElement head element).Proper := by
  have hhead := List.forall_mem_cons.mpr ⟨helement, hproper.head⟩
  have hbody := List.forall_mem_cons.mpr ⟨helement, hproper.body⟩
  unfold Draft.addElement
  dsimp only
  repeat' split
  all_goals first
    | exact { hproper with head := hhead }
    | exact { hproper with body := hbody }

theorem openPart (hproper : draft.Proper) {attributes : List (String × String)}
    (hattributes : NamedOnce attributes) (part : Part) : (draft.openPart attributes part).Proper := by
  cases part with
  | html => exact { hproper with htmlAttributes := hproper.htmlAttributes.merge hattributes }
  | head =>
      rw [Draft.openPart]
      split
      · exact { hproper with headAttributes := hattributes }
      · exact { hproper with headAttributes := hattributes }
      · exact hproper
  | body => exact { hproper with bodyAttributes := hproper.bodyAttributes.merge hattributes }

theorem closePart (hproper : draft.Proper) (part : Part) : (draft.closePart part).Proper := by
  cases part with
  | html => exact { hproper with }
  | head =>
      rw [Draft.closePart]
      split
      all_goals exact { hproper with }
  | body => exact { hproper with }

theorem add (hproper : draft.Proper) {item : Item} (hitem : item.Proper) : (draft.add item).Proper := by
  match item, hitem with
  | .node (.comment content), hsource => exact hproper.addComment hsource
  | .node (.text content), _ => exact hproper.addText _
  | .node (.element head children contents), hsource => exact hproper.addElement head hsource
  | .opens part attributes, hattributes => exact hproper.openPart hattributes part
  | .closes part, _ => exact hproper.closePart part

theorem addAll (hproper : draft.Proper) {items : List Item} (hitems : ∀ item ∈ items, item.Proper) :
    (items.foldl Draft.add draft).Proper := by
  induction items generalizing draft with
  | nil => exact hproper
  | cons item items ih =>
      rw [List.forall_mem_cons] at hitems
      exact ih (hproper.add hitems.1) hitems.2

theorem finish (hproper : draft.Proper) : ∀ source ∈ draft.finish, source.Proper := by
  have hspace : htmlNamespace ≠ "" := by decide +kernel
  have hpart (name : String) (hlower : Text.lowered name = name) (hname : name ≠ "template")
      {attributes : List (String × String)} (hattributes : NamedOnce attributes) {children : List Source}
      (hchildren : ∀ source ∈ children, source.Proper) :
      (Source.element ⟨htmlNamespace, name, attributes⟩ children []).Proper := by
    refine .element _ _ _ ⟨hspace, fun _ => hlower, fun _ => hattributes⟩ hchildren (by simp) ?_
      fun _ => rfl
    intro htemplate
    exact absurd htemplate.2 hname
  have hreverse {sources : List Source} (hsources : ∀ source ∈ sources, source.Proper) :
      ∀ source ∈ sources.reverse, source.Proper := by
    intro source hsource
    exact hsources source (List.mem_reverse.mp hsource)
  have hhead := hpart "head" (by decide +kernel) (by decide) hproper.headAttributes
    (hreverse hproper.head)
  have hbody := hpart "body" (by decide +kernel) (by decide) hproper.bodyAttributes
    (hreverse hproper.body)
  unfold Draft.finish
  dsimp only
  rw [List.forall_mem_append, List.forall_mem_cons]
  refine ⟨hreverse hproper.front, hpart "html" (by decide +kernel) (by decide) hproper.htmlAttributes ?_,
    hreverse hproper.back⟩
  simp only [List.forall_mem_append, List.forall_mem_cons]
  exact ⟨⟨hreverse hproper.beforeHead, hhead, hreverse hproper.between⟩, hbody,
    hreverse hproper.afterBody⟩

end Proper

end Draft

theorem proper_documentOf (text : String) : ∀ source ∈ documentOf text, source.Proper :=
  (Draft.proper_empty.addAll (proper_itemsOf text)).finish

/-- The children of a document, with all below them in proper forms. -/
structure SourceTree where
  sources : List Source
  proper : ∀ source ∈ sources, source.Proper

def SourceTree.ofText (text : String) : SourceTree :=
  ⟨documentOf text, proper_documentOf text⟩

end FlatTree.Markup
