import FlatTree.Proofs.Flat.DocumentOrder
import FlatTree.Proofs.Store.Ascent
import FlatTree.Query.Question

/-!
# Answers in document order

A query answers with the matches among the descendants of its context.  In a forest these are the nodes
that have the context among their flat ancestors, so top-down search and ways up find the same matches, and
the answer lists them in document order.  Stores that edits make are forests as long as they are acyclic
and no slot hosts a shadow root, whatever they show and wherever the context is.
-/

namespace FlatTree.Query

open NodeTree Relation Selector

variable {ν : Type} [DecidableEq ν] {tree : NodeTree ν}

theorem first_eq_head?_all (list : SelectorList) (context : Option ν) :
    first tree list context = (all tree list context).head? :=
  List.head?_filter.symm

theorem nodup_all (list : SelectorList) (context : Option ν) : (all tree list context).Nodup := by
  have hdescendants : (tree.flatDescendants (context.getD tree.document)).Nodup :=
    nodup_flatDescendants _
  exact (hdescendants.filter _).filter _

section Forest

variable (hforest : tree.Forest) {context : Option ν}
  (hcontext : tree.Ordinary (context.getD tree.document))

include hforest hcontext

/-- The matches are the elements with the context among their flat ancestors at which the selector holds. -/
theorem mem_all_iff (list : SelectorList) {node : ν} :
    node ∈ all tree list context ↔ tree.isElement node = true ∧ tree.isSlot node = false ∧
      holdsAt tree list node = true ∧
      TransGen (Leads tree.flatParent) node (context.getD tree.document) := by
  rw [all, candidates, List.mem_filter, List.mem_filter, hforest.mem_flatDescendants_iff hcontext,
    holdsAt, Bool.and_eq_true]
  constructor
  · rintro ⟨⟨⟨⟨hslot, -⟩, hpath⟩, helement⟩, haccepts⟩
    exact ⟨helement, hslot, ⟨helement, haccepts⟩, hpath⟩
  · rintro ⟨helement, hslot, ⟨-, haccepts⟩, hpath⟩
    have htype : tree.nodeType node ≠ .shadowRoot := by
      rw [isElement, decide_eq_true_eq] at helement
      rw [helement]
      nofun
    exact ⟨⟨⟨⟨hslot, htype⟩, hpath⟩, helement⟩, haccepts⟩

/-- Of two matches the one that precedes the other is listed first. -/
theorem idxOf_all_lt_iff (list : SelectorList) {left right : ν}
    (hleft : left ∈ all tree list context) (hright : right ∈ all tree list context) :
    (all tree list context).idxOf left < (all tree list context).idxOf right ↔
      tree.Precedes left right := by
  have hpairwise : (all tree list context).Pairwise tree.Precedes :=
    ((hforest.pairwise_flatDescendants hcontext).filter _).filter _
  exact idxOf_lt_iff_of_pairwise hpairwise hforest.precedes_asymm hleft hright

end Forest

end FlatTree.Query

namespace FlatTree.Store

open Query Relation Selector

variable {store : Store}

theorem Consistent.ordinary_document (hconsistent : store.Consistent) : store.toTree.Ordinary 0 :=
  ⟨hconsistent.not_slot_document, hconsistent.nodeType_document_ne⟩

/-- Acyclic stores in which no slot hosts a shadow root are forests. -/
theorem Consistent.forest_toTree (hconsistent : store.Consistent) (hacyclic : store.Acyclic)
    (hslots : ∀ slot, store.isSlot slot = true → store.shadowRoot slot = none) :
    store.toTree.Forest := by
  apply (hconsistent.coherent_toTree hslots).forest (fun _ => mem_nodes_of_isSlot)
  · intro node parent hparent
    exact List.mem_range.mpr (hconsistent.lt_size_of_flatParent hparent).1
  · exact hconsistent.acyclic_flatParent hacyclic

/-- In an acyclic store where no slot hosts a shadow root a selector finds exactly the elements other than
slots that match it and have the context among their flat ancestors, each of them once and in document
order, and the first of them is the first match.  The context is the document, or any node that is neither
a slot nor a shadow root, be it shown or not. -/
theorem select_in_document_order (edits : List Edit)
    (hslots : ∀ slot, (ofEdits edits).isSlot slot = true → (ofEdits edits).shadowRoot slot = none)
    (hacyclic : (ofEdits edits).Acyclic) {selector : String} {list : SelectorList}
    (hparse : SelectorList.parse selector = .ok list) (context : Option Nat)
    (hcontext : ∀ node ∈ context, (ofEdits edits).toTree.Ordinary node) :
    let tree := (ofEdits edits).toTree
    ∃ found, (Question.select selector (.all context)).answer tree = .ok (.nodes found) ∧
      (∀ node, node ∈ found ↔ tree.isElement node = true ∧ tree.isSlot node = false ∧
        (Question.select selector (.holdsAt node)).answer tree = .ok (.truth true) ∧
        TransGen (Leads tree.flatParent) node (context.getD 0)) ∧
      found.Nodup ∧
      (∀ left ∈ found, ∀ right ∈ found,
        (found.idxOf left < found.idxOf right ↔ tree.Precedes left right)) ∧
      (Question.select selector (.first context)).answer tree = .ok (.node found.head?) := by
  intro tree
  have hconsistent := consistent_ofEdits edits
  have hforest : tree.Forest := hconsistent.forest_toTree hacyclic hslots
  have hordinary : tree.Ordinary (context.getD 0) := by
    cases context with
    | none => exact hconsistent.ordinary_document
    | some node => exact hcontext node rfl
  have hanswer (selection : Selection Nat) :
      (Question.select selector selection).answer tree = .ok (selection.answer tree list) := by
    rw [Question.answer, hparse]
    rfl
  refine ⟨all tree list context, hanswer _, ?_, nodup_all list context, ?_, ?_⟩
  · intro node
    rw [mem_all_iff hforest hordinary list, hanswer, Selection.answer, Except.ok.injEq,
      Answer.truth.injEq]
    rfl
  · exact fun left hleft right hright => idxOf_all_lt_iff hforest hordinary list hleft hright
  · rw [hanswer, Selection.answer, first_eq_head?_all]

/-- Node 1 has two children, of which the second one is assigned to a slot in front of the paragraph 4, and
the first one to a slot inside that paragraph. -/
def projected : List Edit :=
  [.createElement (some htmlNamespace) "div", .append 0 1, .attachShadow 1 .opened,
    .createElement (some htmlNamespace) "slot", .setAttribute 3 "name" "front", .append 2 3,
    .createElement (some htmlNamespace) "p", .append 2 4,
    .createElement (some htmlNamespace) "slot", .append 4 5,
    .createElement (some htmlNamespace) "span", .append 1 6,
    .createElement (some htmlNamespace) "span", .setAttribute 7 "slot" "front", .append 1 7]

/-- Node 6 is the first child of node 1, but node 7 is found before it. -/
theorem select_in_document_order_projected :
    (∀ slot, (ofEdits projected).isSlot slot = true → (ofEdits projected).shadowRoot slot = none) ∧
      (ofEdits projected).Acyclic ∧ (ofEdits projected).children 1 = [6, 7] ∧
      ∃ found, (Question.select "div span" (.all none)).answer (ofEdits projected).toTree =
          .ok (.nodes found) ∧
        7 ∈ found ∧ 6 ∈ found ∧ found.idxOf 7 < found.idxOf 6 := by
  have hbounded : ∀ slot ∈ List.range (ofEdits projected).size,
      (ofEdits projected).isSlot slot = true → (ofEdits projected).shadowRoot slot = none := by
    decide +kernel
  have hslots : ∀ slot, (ofEdits projected).isSlot slot = true →
      (ofEdits projected).shadowRoot slot = none :=
    fun slot hslot => hbounded slot (mem_nodes_of_isSlot hslot) hslot
  have hacyclic : (ofEdits projected).Acyclic :=
    (consistent_ofEdits projected).acyclic_of_iterate (by decide +kernel)
  have hparse : SelectorList.parse "div span" =
      .ok [.link [.feature (.type "div")] .descendant (.last [.feature (.type "span")])] := by
    decide +kernel
  obtain ⟨found, hanswer, hmem, -, horder, -⟩ :=
    select_in_document_order projected hslots hacyclic hparse none (by nofun)
  have hhost : (ofEdits projected).toTree.flatParent 1 = some 0 := by decide +kernel
  have hfront : (ofEdits projected).toTree.flatParent 7 = some 1 := by decide +kernel
  have hparagraph : (ofEdits projected).toTree.flatParent 4 = some 1 := by decide +kernel
  have hinside : (ofEdits projected).toTree.flatParent 6 = some 4 := by decide +kernel
  have hseven : 7 ∈ found := by
    rw [hmem]
    exact ⟨by decide +kernel, by decide +kernel, by decide +kernel, .head hfront (.single hhost)⟩
  have hsix : 6 ∈ found := by
    rw [hmem]
    exact ⟨by decide +kernel, by decide +kernel, by decide +kernel,
      .head hinside (.head hparagraph (.single hhost))⟩
  have hforest := (consistent_ofEdits projected).forest_toTree hacyclic hslots
  have hprecedes : (ofEdits projected).toTree.Precedes 7 6 :=
    Or.inr ⟨1, 7, 4, hforest.fork_of_ne hfront hparagraph .refl (.single hinside) (by decide),
      by decide +kernel⟩
  exact ⟨hslots, hacyclic, by decide +kernel, found, hanswer, hseven, hsix,
    (horder 7 hseven 6 hsix).mpr hprecedes⟩

end FlatTree.Store
