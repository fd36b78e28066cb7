import FlatTree.Proofs.Flat.Descendants
import FlatTree.Proofs.Selector.Mirror
import FlatTree.Query.Question

/-!
# Trees of the same flat shape

A tree mirrors another one along a map of nodes if what is shown in the one is mapped to what is shown in
the other, with flat children in the same order and the same content.  Queries see nothing else, so their
answers are mapped as well.
-/

namespace FlatTree.NodeTree

open Relation

variable {ν κ : Type} [DecidableEq ν] [DecidableEq κ]

/-- The images of what is shown are shown in the same places and have the same content. -/
structure Mirrors (source : NodeTree ν) (target : NodeTree κ) (image : ν → κ) : Prop where
  document : image source.document = target.document
  injective : ∀ left right, source.Shown left → source.Shown right → image left = image right →
    left = right
  flatChildren : ∀ node, source.Shown node →
    target.flatChildren (image node) = (source.flatChildren node).map image
  nodeType : ∀ node, source.Shown node → target.nodeType (image node) = source.nodeType node
  localName : ∀ node, source.Shown node → target.localName (image node) = source.localName node
  space : ∀ node, source.Shown node → target.space (image node) = source.space node
  attributeValue : ∀ node, source.Shown node → ∀ name,
    target.attributeValue (image node) name = source.attributeValue node name

variable {source : NodeTree ν} {target : NodeTree κ} {image : ν → κ}

/-! ## Lists of siblings -/

section Siblings

variable {siblings : List ν} {node : ν}

omit [DecidableEq ν] [DecidableEq κ] in
theorem filter_map_image {holds : ν → Bool} {holdsOfImage : κ → Bool} {nodes : List ν}
    (hsame : ∀ node ∈ nodes, holdsOfImage (image node) = holds node) :
    (nodes.map image).filter holdsOfImage = (nodes.filter holds).map image := by
  rw [List.filter_map, List.filter_congr]
  exact hsame

omit [DecidableEq ν] [DecidableEq κ] in
theorem find?_map_image {holds : ν → Bool} {holdsOfImage : κ → Bool} {nodes : List ν}
    (hsame : ∀ node ∈ nodes, holdsOfImage (image node) = holds node) :
    (nodes.map image).find? holdsOfImage = (nodes.find? holds).map image := by
  rw [← List.head?_filter, filter_map_image hsame, List.head?_map, List.head?_filter]

variable (hinjective : ∀ other ∈ siblings, image other = image node → other = node)

include hinjective

omit [DecidableEq ν] [DecidableEq κ] in
theorem mem_map_image_iff : image node ∈ siblings.map image ↔ node ∈ siblings := by
  rw [List.mem_map]
  constructor
  · rintro ⟨other, hother, hsame⟩
    rwa [← hinjective other hother hsame]
  · intro hnode
    exact ⟨node, hnode, rfl⟩

theorem takeWhile_map_image :
    (siblings.map image).takeWhile (· ≠ image node) =
      (siblings.takeWhile (· ≠ node)).map image := by
  induction siblings with
  | nil => rfl
  | cons first siblings ih =>
      rw [List.forall_mem_cons] at hinjective
      by_cases hfirst : first = node
      · simp [hfirst]
      · have hne : image first ≠ image node := fun hsame => hfirst (hinjective.1 hsame)
        have hrest := ih hinjective.2
        simp only [List.map_cons, List.takeWhile_cons, hne, hfirst, ne_eq, not_false_eq_true,
          decide_true, if_true]
        exact congrArg (image first :: ·) hrest

theorem idxOf_map_image : (siblings.map image).idxOf (image node) = siblings.idxOf node := by
  induction siblings with
  | nil => rfl
  | cons first siblings ih =>
      rw [List.forall_mem_cons] at hinjective
      rw [List.map_cons]
      by_cases hfirst : first = node
      · rw [List.idxOf_cons_eq _ hfirst, List.idxOf_cons_eq _ (congrArg image hfirst)]
      · have hne : image first ≠ image node := fun hsame => hfirst (hinjective.1 hsame)
        rw [List.idxOf_cons_ne _ hfirst, List.idxOf_cons_ne _ hne, ih hinjective.2]

variable (helement : ∀ other ∈ siblings, target.isElement (image other) = source.isElement other)

include helement

theorem previousElementAmong_map :
    target.previousElementAmong (siblings.map image) (image node) =
      (source.previousElementAmong siblings node).map image := by
  have hfront : ∀ other ∈ (siblings.takeWhile (· ≠ node)).reverse,
      target.isElement (image other) = source.isElement other := by
    intro other hother
    exact helement other ((List.takeWhile_sublist _).subset (List.mem_reverse.mp hother))
  rw [previousElementAmong, previousElementAmong, takeWhile_map_image hinjective,
    ← List.map_reverse, find?_map_image hfront]
  by_cases hnode : node ∈ siblings
  · rw [if_pos hnode, if_pos ((mem_map_image_iff hinjective).mpr hnode)]
  · rw [if_neg hnode, if_neg (mt (mem_map_image_iff hinjective).mp hnode), Option.map_none]

theorem rankAmong_map :
    target.rankAmong (siblings.map image) (image node) = source.rankAmong siblings node := by
  have helements : ∀ other ∈ siblings.filter source.isElement, image other = image node →
      other = node := by
    intro other hother
    exact hinjective other (List.mem_of_mem_filter hother)
  rw [rankAmong, rankAmong, filter_map_image helement, idxOf_map_image helements, List.length_map]
  by_cases hnode : node ∈ siblings.filter source.isElement
  · rw [if_pos hnode, if_pos ((mem_map_image_iff helements).mpr hnode)]
  · rw [if_neg hnode, if_neg (mt (mem_map_image_iff helements).mp hnode)]

end Siblings

/-! ## Views -/

namespace Mirrors

variable (hmirrors : Mirrors source target image)

include hmirrors

theorem shown {node : ν} (hshown : source.Shown node) : target.Shown (image node) := by
  induction hshown with
  | refl =>
      rw [hmirrors.document]
      exact shown_document
  | @tail parent node hparent hmem ih =>
      apply ih.child
      rw [hmirrors.flatChildren parent hparent]
      exact List.mem_map_of_mem hmem

theorem isElement {node : ν} (hshown : source.Shown node) :
    target.isElement (image node) = source.isElement node := by
  rw [NodeTree.isElement, NodeTree.isElement, hmirrors.nodeType node hshown]

theorem injective_of_mem {parent node : ν} (hparent : source.Shown parent)
    (hnode : source.Shown node) :
    ∀ other ∈ source.flatChildren parent, image other = image node → other = node := by
  intro other hother
  exact hmirrors.injective other node (hparent.child hother) hnode

theorem isElement_of_mem {parent : ν} (hparent : source.Shown parent) :
    ∀ other ∈ source.flatChildren parent,
      target.isElement (image other) = source.isElement other := by
  intro other hother
  exact hmirrors.isElement (hparent.child hother)

section Rooted

variable (hsource : source.Rooted) (htarget : target.Rooted)

include hsource htarget

theorem flatParent {node : ν} (hshown : source.Shown node) :
    target.flatParent (image node) = (source.flatParent node).map image := by
  rcases hshown.cases with rfl | ⟨parent, hparent, hmem⟩
  · rw [hmirrors.document, hsource.flatParent_document, htarget.flatParent_document]
    rfl
  · rw [hsource.flatParent_of_mem parent node hparent hmem]
    apply htarget.flatParent_of_mem
    · exact hmirrors.shown hparent
    · rw [hmirrors.flatChildren parent hparent]
      exact List.mem_map_of_mem hmem

theorem flatPreviousElement {node : ν} (hshown : source.Shown node) :
    target.flatPreviousElement (image node) = (source.flatPreviousElement node).map image := by
  rw [NodeTree.flatPreviousElement, NodeTree.flatPreviousElement,
    hmirrors.flatParent hsource htarget hshown]
  cases hparent : source.flatParent node with
  | none => rfl
  | some parent =>
      have habove := (hsource.mem_of_flatParent hshown hparent).1
      rw [Option.map_some, Option.bind_some, Option.bind_some, hmirrors.flatChildren parent habove,
        previousElementAmong_map (hmirrors.injective_of_mem habove hshown)
          (hmirrors.isElement_of_mem habove)]

theorem flatRank {node : ν} (hshown : source.Shown node) :
    target.flatRank (image node) = source.flatRank node := by
  rw [NodeTree.flatRank, NodeTree.flatRank, hmirrors.flatParent hsource htarget hshown]
  cases hparent : source.flatParent node with
  | none => rfl
  | some parent =>
      have habove := (hsource.mem_of_flatParent hshown hparent).1
      rw [Option.map_some, Option.bind_some, Option.bind_some, hmirrors.flatChildren parent habove,
        rankAmong_map (hmirrors.injective_of_mem habove hshown) (hmirrors.isElement_of_mem habove)]

theorem alike {node : ν} (hshown : source.Shown node) :
    Selector.ElementView.Alike source.flatView target.flatView node (image node) where
  isElement := hmirrors.isElement hshown
  isHtml := by
    change target.isHtmlElement (image node) = source.isHtmlElement node
    rw [isHtmlElement, isHtmlElement, hmirrors.space node hshown]
  localName := hmirrors.localName node hshown
  id := hmirrors.attributeValue node hshown "id"
  hasClass := by
    intro name
    change target.hasClass (image node) name = source.hasClass node name
    rw [hasClass, hasClass, hmirrors.attributeValue node hshown]
  attributeValue := hmirrors.attributeValue node hshown
  rank := by
    rw [flatView_rank, flatView_rank]
    exact hmirrors.flatRank hsource htarget hshown

theorem walk_flatParent {node : ν} (hshown : source.Shown node) :
    walk target.flatParent target.nodes.length (image node) =
      (walk source.flatParent source.nodes.length node).map image := by
  apply walk_map source.Shown
  · exact fun _ => hmirrors.flatParent hsource htarget
  · exact fun _ _ hnode hparent => (hsource.mem_of_flatParent hnode hparent).1
  · exact hshown
  · exact hsource.endsWithin_flatParent hshown
  · exact htarget.endsWithin_flatParent (hmirrors.shown hshown)

theorem walk_flatPreviousElement {node : ν} (hshown : source.Shown node) :
    walk target.flatPreviousElement target.nodes.length (image node) =
      (walk source.flatPreviousElement source.nodes.length node).map image := by
  apply walk_map source.Shown
  · exact fun _ => hmirrors.flatPreviousElement hsource htarget
  · exact fun _ _ hnode hprevious =>
      hsource.shown_of_transGen_flatPreviousElement hnode (.single hprevious)
  · exact hshown
  · exact hsource.endsWithin_flatPreviousElement hshown
  · exact htarget.endsWithin_flatPreviousElement (hmirrors.shown hshown)

theorem flatView :
    Selector.ElementView.Mirrors source.flatView target.flatView source.Shown image where
  alike := fun _ hshown => hmirrors.alike hsource htarget hshown
  related := by
    intro combinator node hshown
    cases combinator with
    | descendant => exact hmirrors.walk_flatParent hsource htarget hshown
    | child =>
        change (target.flatParent (image node)).toList = (source.flatParent node).toList.map image
        rw [hmirrors.flatParent hsource htarget hshown]
        cases source.flatParent node <;> rfl
    | adjacent =>
        change (target.flatView.previous (image node)).toList =
          (source.flatView.previous node).toList.map image
        rw [flatView_previous, flatView_previous, hmirrors.flatPreviousElement hsource htarget hshown]
        cases source.flatPreviousElement node <;> rfl
    | general =>
        change walk target.flatView.previous target.nodes.length (image node) =
          (walk source.flatView.previous source.nodes.length node).map image
        rw [flatView_previous, flatView_previous]
        exact hmirrors.walk_flatPreviousElement hsource htarget hshown
  shown_of_related := by
    intro combinator node hshown candidate hcandidate
    have hparents : TransGen (Leads source.flatParent) node candidate → source.Shown candidate :=
      hsource.shown_of_transGen_flatParent hshown
    have hprevious : TransGen (Leads source.flatView.previous) node candidate →
        source.Shown candidate := by
      rw [flatView_previous]
      exact hsource.shown_of_transGen_flatPreviousElement hshown
    cases combinator with
    | descendant => exact hparents (transGen_of_mem_walk hcandidate)
    | child => exact hparents (.single (Option.mem_toList.mp hcandidate))
    | adjacent => exact hprevious (.single (Option.mem_toList.mp hcandidate))
    | general => exact hprevious (transGen_of_mem_walk hcandidate)

end Rooted

/-! ## Descendants -/

theorem listBelow {unmet stack : List ν} {others : List κ}
    (hstack : ∀ node ∈ stack, source.Shown node)
    (hunmet : ∀ node, source.Shown node → (image node ∈ others ↔ node ∈ unmet)) :
    target.listBelow others (stack.map image) = (source.listBelow unmet stack).map image := by
  fun_induction source.listBelow unmet stack generalizing others with
  | case1 => rw [List.map_nil, NodeTree.listBelow]
  | case2 unmet node stack hmem ih =>
      rw [List.forall_mem_cons] at hstack
      have hnode := hstack.1
      have hbelow : ∀ other ∈ source.flatChildren node ++ stack, source.Shown other := by
        rw [List.forall_mem_append]
        exact ⟨fun other hother => hnode.child hother, hstack.2⟩
      have hrest : ∀ other, source.Shown other →
          (image other ∈ without others (image node) ↔ other ∈ without unmet node) := by
        intro other hother
        have hsame : image other = image node ↔ other = node :=
          ⟨hmirrors.injective other node hother hnode, congrArg image⟩
        rw [mem_without, mem_without, hunmet other hother, Ne, Ne, hsame]
      rw [List.map_cons, NodeTree.listBelow, dif_pos ((hunmet node hnode).mpr hmem),
        hmirrors.flatChildren node hnode, ← List.map_append, ih hbelow hrest, List.map_cons]
  | case3 unmet node stack hmem ih =>
      rw [List.forall_mem_cons] at hstack
      rw [List.map_cons, NodeTree.listBelow, dif_neg (mt (hunmet node hstack.1).mp hmem),
        ih hstack.2 hunmet]

theorem flatDescendants (hsource : source.Rooted) (htarget : target.Rooted) {node : ν}
    (hshown : source.Shown node) :
    target.flatDescendants (image node) = (source.flatDescendants node).map image := by
  rw [NodeTree.flatDescendants, NodeTree.flatDescendants, hmirrors.flatChildren node hshown]
  apply hmirrors.listBelow
  · exact fun child hchild => hshown.child hchild
  · intro other hother
    exact iff_of_true (htarget.mem_nodes _ (hmirrors.shown hother)) (hsource.mem_nodes other hother)

end Mirrors

end FlatTree.NodeTree

namespace FlatTree.Query

open Selector

variable {ν κ : Type}

/-- The same selection in a tree of images. -/
def Selection.map (image : ν → κ) : Selection ν → Selection κ
  | .all context => .all (context.map image)
  | .first context => .first (context.map image)
  | .nearest context => .nearest (context.map image)
  | .holdsAt node => .holdsAt (image node)

/-- The selection speaks of nodes of a kind only. -/
def Selection.Within (shown : ν → Prop) : Selection ν → Prop
  | .all context => ∀ node ∈ context, shown node
  | .first context => ∀ node ∈ context, shown node
  | .nearest context => ∀ node ∈ context, shown node
  | .holdsAt node => shown node

def Answer.map (image : ν → κ) : Answer ν → Answer κ
  | .nodes found => .nodes (found.map image)
  | .node found => .node (found.map image)
  | .truth holds => .truth holds

variable [DecidableEq ν] [DecidableEq κ] {source : NodeTree ν} {target : NodeTree κ} {image : ν → κ}
  (hmirrors : source.Mirrors target image) (hsource : source.Rooted) (htarget : target.Rooted)

include hmirrors

theorem shown_context {context : Option ν} (hcontext : ∀ node ∈ context, source.Shown node) :
    source.Shown (context.getD source.document) ∧
      (context.map image).getD target.document = image (context.getD source.document) := by
  cases context with
  | none => exact ⟨NodeTree.shown_document, hmirrors.document.symm⟩
  | some node => exact ⟨hcontext node rfl, rfl⟩

include hsource

theorem shown_of_mem_candidates {context : Option ν}
    (hcontext : ∀ node ∈ context, source.Shown node) {node : ν}
    (hnode : node ∈ candidates source context) : source.Shown node :=
  hsource.shown_of_mem_flatDescendants (shown_context hmirrors hcontext).1
    (List.mem_of_mem_filter hnode)

include htarget

theorem candidates_map {context : Option ν} (hcontext : ∀ node ∈ context, source.Shown node) :
    candidates target (context.map image) = (candidates source context).map image := by
  obtain ⟨hshown, himage⟩ := shown_context hmirrors hcontext
  rw [candidates, candidates, himage, hmirrors.flatDescendants hsource htarget hshown]
  apply NodeTree.filter_map_image
  intro node hnode
  exact hmirrors.isElement (hsource.shown_of_mem_flatDescendants hshown hnode)

theorem acceptsList_map (list : SelectorList) {node : ν} (hshown : source.Shown node) :
    target.flatView.acceptsList (image node) list = source.flatView.acceptsList node list :=
  (hmirrors.flatView hsource htarget).acceptsList list hshown

theorem all_map (list : SelectorList) {context : Option ν}
    (hcontext : ∀ node ∈ context, source.Shown node) :
    all target list (context.map image) = (all source list context).map image := by
  rw [all, all, candidates_map hmirrors hsource htarget hcontext]
  apply NodeTree.filter_map_image
  intro node hnode
  exact acceptsList_map hmirrors hsource htarget list
    (shown_of_mem_candidates hmirrors hsource hcontext hnode)

theorem first_map (list : SelectorList) {context : Option ν}
    (hcontext : ∀ node ∈ context, source.Shown node) :
    first target list (context.map image) = (first source list context).map image := by
  rw [first, first, candidates_map hmirrors hsource htarget hcontext]
  apply NodeTree.find?_map_image
  intro node hnode
  exact acceptsList_map hmirrors hsource htarget list
    (shown_of_mem_candidates hmirrors hsource hcontext hnode)

theorem holdsAt_map (list : SelectorList) {node : ν} (hshown : source.Shown node) :
    holdsAt target list (image node) = holdsAt source list node := by
  rw [holdsAt, holdsAt, hmirrors.isElement hshown,
    acceptsList_map hmirrors hsource htarget list hshown]

theorem nearest_map (list : SelectorList) {context : Option ν}
    (hcontext : ∀ node ∈ context, source.Shown node) :
    nearest target list (context.map image) = (nearest source list context).map image := by
  obtain ⟨hshown, himage⟩ := shown_context hmirrors hcontext
  rw [nearest, nearest, himage, hmirrors.walk_flatParent hsource htarget hshown, ← List.map_cons]
  apply NodeTree.find?_map_image
  intro node hnode
  apply holdsAt_map hmirrors hsource htarget list
  rcases List.mem_cons.mp hnode with rfl | hwalk
  · exact hshown
  · exact hsource.shown_of_transGen_flatParent hshown (transGen_of_mem_walk hwalk)

/-- A selector gives mapped answers in mirrored trees, or the same failure. -/
theorem answer_map (selector : String) {selection : Selection ν}
    (hwithin : selection.Within source.Shown) :
    (Question.select selector (selection.map image)).answer target =
      ((Question.select selector selection).answer source).map (Answer.map image) := by
  have hanswer (list : SelectorList) :
      (selection.map image).answer target list = (selection.answer source list).map image := by
    cases selection with
    | all context => exact congrArg Answer.nodes (all_map hmirrors hsource htarget list hwithin)
    | first context => exact congrArg Answer.node (first_map hmirrors hsource htarget list hwithin)
    | nearest context =>
        exact congrArg Answer.node (nearest_map hmirrors hsource htarget list hwithin)
    | holdsAt node => exact congrArg Answer.truth (holdsAt_map hmirrors hsource htarget list hwithin)
  rw [Question.answer, Question.answer]
  cases SelectorList.parse selector with
  | error fault => rfl
  | ok list => exact congrArg Except.ok (hanswer list)

end FlatTree.Query
