import FlatTree.Proofs.Flat.ElementSiblings
import FlatTree.Proofs.Flat.Mirror
import FlatTree.Proofs.Flat.Traversal

/-!
# Trees that differ in text

Selectors ask about elements only.  Two trees have the same answers to them if they agree about elements and
flat parents, and if the flat children of every node are the same but for text and comments.  These have no
flat children, so a search that passes over them meets nothing else in another order.
-/

namespace FlatTree.NodeTree

open Relation

variable {ν : Type}

/-- Text and comments, below which there is nothing. -/
def isCharacterData (tree : NodeTree ν) (node : ν) : Bool :=
  tree.nodeType node = .text || tree.nodeType node = .comment

/-- The nodes that are neither text nor comments. -/
def branching (tree : NodeTree ν) (nodes : List ν) : List ν :=
  nodes.filter fun node => !tree.isCharacterData node

theorem branching_append (tree : NodeTree ν) (front back : List ν) :
    tree.branching (front ++ back) = tree.branching front ++ tree.branching back :=
  List.filter_append front back

theorem branching_flatMap (tree : NodeTree ν) (below : ν → List ν) (nodes : List ν) :
    tree.branching (nodes.flatMap below) = nodes.flatMap fun node => tree.branching (below node) :=
  List.filter_flatMap

theorem branching_eq_nil_iff (tree : NodeTree ν) (nodes : List ν) :
    tree.branching nodes = [] ↔ ∀ node ∈ nodes, tree.isCharacterData node = true := by
  simp [branching, List.filter_eq_nil_iff]

theorem isElement_eq_false {tree : NodeTree ν} {node : ν} (hdata : tree.isCharacterData node = true) :
    tree.isElement node = false := by
  rw [isCharacterData, Bool.or_eq_true, decide_eq_true_eq, decide_eq_true_eq] at hdata
  rw [isElement, decide_eq_false_iff_not]
  rcases hdata with htype | htype
  · rw [htype]
    decide
  · rw [htype]
    decide

/-- Elements are found among the nodes that are neither text nor comments. -/
theorem filter_isElement_branching (tree : NodeTree ν) (nodes : List ν) :
    (tree.branching nodes).filter tree.isElement = nodes.filter tree.isElement := by
  rw [branching, List.filter_filter]
  apply List.filter_congr
  intro node _
  cases hdata : tree.isCharacterData node with
  | true => simp [isElement_eq_false hdata]
  | false => simp

variable [DecidableEq ν]

/-- To list each node once and then to choose some of them is to choose first. -/
theorem filter_eraseDups (holds : ν → Bool) (nodes : List ν) :
    nodes.eraseDups.filter holds = (nodes.filter holds).eraseDups := by
  cases nodes with
  | nil => rfl
  | cons node nodes =>
      have hrest := filter_eraseDups holds (nodes.filter fun other => !other == node)
      have hswap : (nodes.filter fun other => !other == node).filter holds =
          (nodes.filter holds).filter fun other => !other == node := by
        rw [List.filter_filter, List.filter_filter]
        exact List.filter_congr fun other _ => Bool.and_comm _ _
      rw [List.eraseDups_cons, List.filter_cons, hrest, hswap, List.filter_cons]
      split
      · rw [List.eraseDups_cons]
      · rename_i hfails
        congr 1
        rw [List.filter_eq_self]
        rintro other hother
        have hne : other ≠ node := by
          rintro rfl
          exact hfails (List.mem_filter.mp hother).2
        simpa using hne
termination_by nodes.length
decreasing_by exact Nat.lt_succ_of_le (List.length_filter_le _ _)

theorem branching_eraseDups (tree : NodeTree ν) (nodes : List ν) :
    tree.branching nodes.eraseDups = (tree.branching nodes).eraseDups :=
  filter_eraseDups _ nodes

/-- Passing over text and comments leaves the other nodes of a traversal in their order. -/
theorem Traverses.collects {tree target : NodeTree ν} {met stack result : List ν}
    (hdata : ∀ node, target.isCharacterData node = true → tree.flatChildren node = [])
    (htraverses : tree.Traverses met stack result) {passed : List ν}
    (hpassed : ∀ node, target.isCharacterData node = false → (node ∈ passed ↔ node ∈ met)) :
    Collects (fun node => target.branching (tree.flatChildren node)) passed (target.branching stack)
      (target.branching result) := by
  induction htraverses generalizing passed with
  | finished => exact .finished
  | @again met stack result node hmem _ ih =>
      rw [branching, List.filter_cons]
      cases hkind : target.isCharacterData node with
      | true => exact ih hpassed
      | false => exact .again ((hpassed node hkind).mpr hmem) (ih hpassed)
  | @first met stack result node hnew _ ih =>
      rw [branching, branching, List.filter_cons, List.filter_cons]
      cases hkind : target.isCharacterData node with
      | true =>
          rw [hdata node hkind] at ih
          refine ih fun other hother => ?_
          have hne : other ≠ node := by
            rintro rfl
            rw [hkind] at hother
            contradiction
          rw [hpassed other hother, List.mem_cons, or_iff_right hne]
      | false =>
          refine .first (mt (hpassed node hkind).mp hnew) ?_
          rw [← branching, ← branching_append]
          exact ih fun other hother => by rw [List.mem_cons, List.mem_cons, hpassed other hother]

theorem isElement_of_flatPreviousElement {tree : NodeTree ν} {node other : ν}
    (hprevious : tree.flatPreviousElement node = some other) : tree.isElement other = true := by
  obtain ⟨parent, -, hamong⟩ := Option.bind_eq_some_iff.mp hprevious
  rw [previousElementAmong] at hamong
  split at hamong
  · exact List.find?_some hamong
  · contradiction

/-! ## Trees with the same elements -/

/-- The target tells the same as the source about elements and about the flat parents of the nodes of the
source, and shows the same nodes below every node except for text and comments. -/
structure DiffersInText (source target : NodeTree ν) : Prop where
  document : target.document = source.document
  length_nodes : source.nodes.length ≤ target.nodes.length
  isElement : ∀ node, target.isElement node = source.isElement node
  localName : ∀ node, target.localName node = source.localName node
  space : ∀ node, target.space node = source.space node
  attributeValue : ∀ node name, target.attributeValue node name = source.attributeValue node name
  mem_document : source.document ∈ source.nodes
  mem_of_isElement : ∀ node, source.isElement node = true → node ∈ source.nodes
  mem_of_flatParent : ∀ node parent, source.flatParent node = some parent → parent ∈ source.nodes
  flatParent : ∀ node ∈ source.nodes, target.flatParent node = source.flatParent node
  flatChildren : ∀ node,
    target.branching (target.flatChildren node) = target.branching (source.flatChildren node)
  flatChildren_eq_nil : ∀ node, target.isCharacterData node = true →
    source.flatChildren node = [] ∧ target.flatChildren node = []
  lists_source : source.ListsNodes
  lists_target : target.ListsNodes

namespace DiffersInText

variable {source target : NodeTree ν} (hdiffers : DiffersInText source target)

include hdiffers

theorem isElement_eq : target.isElement = source.isElement :=
  funext hdiffers.isElement

theorem flatElements (parent : ν) : target.flatElements parent = source.flatElements parent := by
  rw [NodeTree.flatElements, NodeTree.flatElements, ← hdiffers.isElement_eq,
    ← filter_isElement_branching, hdiffers.flatChildren, filter_isElement_branching]

theorem candidates (context : Option ν) :
    Query.candidates target context = Query.candidates source context := by
  have hsource := (flatDescendants_eq_search source hdiffers.lists_source
    (context.getD source.document)).1 _ |>.mpr rfl
  have htarget := (flatDescendants_eq_search target hdiffers.lists_target
    (context.getD source.document)).1 _ |>.mpr rfl
  have hbelow : (fun node => target.branching (target.flatChildren node)) =
      fun node => target.branching (source.flatChildren node) := funext hdiffers.flatChildren
  replace hsource := hsource.collects (fun node hdata => (hdiffers.flatChildren_eq_nil node hdata).1)
    fun _ _ => Iff.rfl
  replace htarget := htarget.collects (fun node hdata => (hdiffers.flatChildren_eq_nil node hdata).2)
    fun _ _ => Iff.rfl
  rw [hbelow, hdiffers.flatChildren] at htarget
  rw [Query.candidates, Query.candidates, hdiffers.document, ← hdiffers.isElement_eq,
    ← filter_isElement_branching, htarget.unique hsource, filter_isElement_branching]

section Element

variable {node : ν} (helement : source.isElement node = true)

include helement

theorem flatPreviousElement : target.flatPreviousElement node = source.flatPreviousElement node := by
  have hparent := hdiffers.flatParent node (hdiffers.mem_of_isElement node helement)
  cases habove : source.flatParent node with
  | none =>
      rw [NodeTree.flatPreviousElement, NodeTree.flatPreviousElement, hparent, habove, Option.bind_none,
        Option.bind_none]
  | some parent =>
      rw [habove] at hparent
      by_cases hmem : node ∈ source.flatElements parent
      · obtain ⟨front, back, hsplit⟩ := List.append_of_mem hmem
        rw [flatPreviousElement_eq habove hsplit]
        rw [← hdiffers.flatElements] at hsplit
        exact flatPreviousElement_eq hparent hsplit
      · have hsource : node ∉ source.flatChildren parent :=
          fun hchild => hmem (List.mem_filter.mpr ⟨hchild, helement⟩)
        have htarget : node ∉ target.flatChildren parent := by
          intro hchild
          rw [← hdiffers.flatElements] at hmem
          exact hmem (List.mem_filter.mpr ⟨hchild, hdiffers.isElement node ▸ helement⟩)
        rw [NodeTree.flatPreviousElement, NodeTree.flatPreviousElement, hparent, habove,
          Option.bind_some, Option.bind_some, previousElementAmong, previousElementAmong,
          if_neg hsource, if_neg htarget]

theorem flatRank : target.flatRank node = source.flatRank node := by
  have hamong (parent : ν) : target.rankAmong (target.flatChildren parent) node =
      source.rankAmong (source.flatChildren parent) node := by
    have helements : (target.flatChildren parent).filter target.isElement =
        (source.flatChildren parent).filter source.isElement := hdiffers.flatElements parent
    rw [rankAmong, rankAmong, helements]
  rw [NodeTree.flatRank, NodeTree.flatRank,
    hdiffers.flatParent node (hdiffers.mem_of_isElement node helement), funext hamong]

theorem alike : Selector.ElementView.Alike source.flatView target.flatView node node where
  isElement := hdiffers.isElement node
  isHtml := by
    change target.isHtmlElement node = source.isHtmlElement node
    rw [isHtmlElement, isHtmlElement, hdiffers.space]
  localName := hdiffers.localName node
  id := hdiffers.attributeValue node "id"
  hasClass := by
    intro name
    change target.hasClass node name = source.hasClass node name
    rw [hasClass, hasClass, hdiffers.attributeValue]
  attributeValue := hdiffers.attributeValue node
  rank := by
    rw [flatView_rank, flatView_rank]
    exact hdiffers.flatRank helement

theorem walk_flatPreviousElement (steps : Nat) :
    walk target.flatPreviousElement steps node = walk source.flatPreviousElement steps node := by
  apply walk_congr (source.isElement · = true)
  · exact fun _ => hdiffers.flatPreviousElement
  · exact fun _ _ _ hprevious => isElement_of_flatPreviousElement hprevious
  · exact helement

end Element

theorem mem_of_transGen_flatParent {node last : ν}
    (hpath : TransGen (Leads source.flatParent) node last) : last ∈ source.nodes := by
  obtain ⟨before, -, hlast⟩ := TransGen.tail'_iff.mp hpath
  exact hdiffers.mem_of_flatParent before last hlast

theorem mem_of_transGen_flatPreviousElement {node last : ν}
    (hpath : TransGen (Leads source.flatPreviousElement) node last) : last ∈ source.nodes := by
  obtain ⟨before, -, hlast⟩ := TransGen.tail'_iff.mp hpath
  exact hdiffers.mem_of_isElement last (isElement_of_flatPreviousElement hlast)

theorem walk_flatParent {node : ν} (hnode : node ∈ source.nodes) (steps : Nat) :
    walk target.flatParent steps node = walk source.flatParent steps node := by
  apply walk_congr (· ∈ source.nodes)
  · exact hdiffers.flatParent
  · exact fun node parent _ hparent => hdiffers.mem_of_flatParent node parent hparent
  · exact hnode

theorem flatView : Selector.ElementView.Agree source.flatView target.flatView where
  isElement := hdiffers.isElement
  alike := fun _ => hdiffers.alike
  mem_related_iff := by
    intro combinator node candidate helement _
    have hnode := hdiffers.mem_of_isElement node helement
    cases combinator with
    | descendant =>
        change candidate ∈ walk target.flatParent target.nodes.length node ↔
          candidate ∈ walk source.flatParent source.nodes.length node
        have hmem : ∀ last, TransGen (Leads source.flatParent) node last → last ∈ source.nodes :=
          fun _ => hdiffers.mem_of_transGen_flatParent
        rw [hdiffers.walk_flatParent hnode, mem_walk_iff_of_mem hmem hdiffers.length_nodes,
          mem_walk_iff_of_mem hmem (Nat.le_refl _)]
    | child =>
        change candidate ∈ (target.flatParent node).toList ↔
          candidate ∈ (source.flatParent node).toList
        rw [hdiffers.flatParent node hnode]
    | adjacent =>
        change candidate ∈ (target.flatView.previous node).toList ↔
          candidate ∈ (source.flatView.previous node).toList
        rw [flatView_previous, flatView_previous, hdiffers.flatPreviousElement helement]
    | general =>
        change candidate ∈ walk target.flatView.previous target.nodes.length node ↔
          candidate ∈ walk source.flatView.previous source.nodes.length node
        have hmem : ∀ last, TransGen (Leads source.flatPreviousElement) node last →
            last ∈ source.nodes := fun _ => hdiffers.mem_of_transGen_flatPreviousElement
        rw [flatView_previous, flatView_previous, hdiffers.walk_flatPreviousElement helement,
          mem_walk_iff_of_mem hmem hdiffers.length_nodes, mem_walk_iff_of_mem hmem (Nat.le_refl _)]

/-! ## Answers -/

section Answers

open Query Selector

theorem acceptsList (list : SelectorList) (node : ν) :
    target.flatView.acceptsList node list = source.flatView.acceptsList node list :=
  hdiffers.flatView.acceptsList list node

theorem holdsAt (list : SelectorList) (node : ν) :
    Query.holdsAt target list node = Query.holdsAt source list node := by
  rw [Query.holdsAt, Query.holdsAt, hdiffers.isElement, hdiffers.acceptsList]

theorem nearest (list : SelectorList) {context : Option ν}
    (hcontext : context.getD source.document ∈ source.nodes) :
    Query.nearest target list context = Query.nearest source list context := by
  have hmem : ∀ last, TransGen (Leads source.flatParent) (context.getD source.document) last →
      last ∈ source.nodes := fun _ => hdiffers.mem_of_transGen_flatParent
  calc
    Query.nearest target list context =
        (context.getD source.document ::
          walk source.flatParent target.nodes.length (context.getD source.document)).find?
            (Query.holdsAt target list) := by
      rw [← hdiffers.walk_flatParent hcontext, ← hdiffers.document]
      rfl
    _ = (context.getD source.document ::
          walk source.flatParent source.nodes.length (context.getD source.document)).find?
            (Query.holdsAt source list) := by
      rw [find?_cons_walk_of_le hmem (Nat.le_refl _) _ hdiffers.length_nodes,
        funext (hdiffers.holdsAt list)]
    _ = Query.nearest source list context := rfl

/-- A selector gives the same answer, or the same failure, about the nodes of the source. -/
theorem answer (selector : String) {selection : Selection ν}
    (hwithin : selection.Within (· ∈ source.nodes)) :
    (Question.select selector selection).answer target =
      (Question.select selector selection).answer source := by
  have haccepts (list : SelectorList) :
      (fun node => target.flatView.acceptsList node list) =
        fun node => source.flatView.acceptsList node list := funext (hdiffers.acceptsList list)
  have hanswer (list : SelectorList) :
      selection.answer target list = selection.answer source list := by
    cases selection with
    | all context =>
        rw [Selection.answer, Selection.answer, all, all, hdiffers.candidates, haccepts]
    | first context =>
        rw [Selection.answer, Selection.answer, first, first, hdiffers.candidates, haccepts]
    | nearest context =>
        have hcontext : context.getD source.document ∈ source.nodes := by
          cases context with
          | none => exact hdiffers.mem_document
          | some node => exact hwithin node rfl
        rw [Selection.answer, Selection.answer, hdiffers.nearest list hcontext]
    | holdsAt node => rw [Selection.answer, Selection.answer, hdiffers.holdsAt]
  rw [Question.answer, Question.answer, funext hanswer]

end Answers

end DiffersInText

end FlatTree.NodeTree
