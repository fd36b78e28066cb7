import FlatTree.Proofs.Flat.DocumentOrder
import FlatTree.Proofs.Store.Ascent

/-!
# The document as a root

Nothing stands above the document as long as it is not appended to another node.  An append asks only for
a parent outside of the tree of the document, so it takes the document as well as any other node that is no
shadow root.  While the document is a root, nothing has it as a child in the flat tree, and the way up from
whatever a query finds ends at the document, unless it comes by a node that is shown through a slot with a
shadow root of its own.
-/

namespace FlatTree

open Query Relation Selector

namespace NodeTree

variable {ν : Type} [DecidableEq ν] {tree : NodeTree ν}

/-- The way up from a node comes by a node that is shown through a slot with a shadow root. -/
def BelowShownThroughHost (tree : NodeTree ν) (node : ν) : Prop :=
  ∃ above below, ReflTransGen (Leads tree.flatParent) node below ∧ tree.ShownThroughHost above below

namespace Linked

variable (hlinked : tree.Linked)

include hlinked

omit [DecidableEq ν] in
theorem exists_parent_of_mem_unexpanded {node entry : ν} (hentry : entry ∈ tree.unexpanded node) :
    ∃ parent, tree.parent entry = some parent := by
  rw [unexpanded] at hentry
  split at hentry
  · rename_i root _
    exact ⟨root, (hlinked.mem_children_iff root entry).mp hentry⟩
  · split at hentry
    · rename_i hslot
      exact hlinked.exists_parent_of_shows ⟨hslot, hentry⟩
    · exact ⟨node, (hlinked.mem_children_iff node entry).mp hentry⟩

variable (hslots : ∀ slot, tree.isSlot slot = true → slot ∈ tree.nodes)

include hslots

/-- Only what has a parent is a flat child. -/
theorem exists_parent_of_mem_flatChildren {node child : ν} (hchild : child ∈ tree.flatChildren node) :
    ∃ parent, tree.parent child = some parent := by
  obtain ⟨-, entry, hentry, hpath⟩ := (mem_flatChildren_iff hslots).mp hchild
  rcases hpath.cases_tail with rfl | ⟨slot, -, hshows⟩
  · exact hlinked.exists_parent_of_mem_unexpanded hentry
  · exact hlinked.exists_parent_of_shows hshows

omit hslots in
/-- What has no parent has no flat parent. -/
theorem flatParent_eq_none {node : ν} (hparent : tree.parent node = none) :
    tree.flatParent node = none := by
  have hassigned : tree.assignedSlot node = none := by
    rw [Option.eq_none_iff_forall_ne_some]
    intro slot hslot
    obtain ⟨host, -, hhost, -⟩ := hlinked.hosted_of_assigned node slot hslot
    rw [hparent] at hhost
    contradiction
  rw [flatParent, leaveSlots, hassigned, hparent]

/-- Flat parents lead back from what the flat tree leads to, or come by a node that is shown through a slot
with a shadow root. -/
theorem path_or_belowShownThroughHost {top node : ν} (htop : tree.Ordinary top)
    (hpath : ReflTransGen tree.Parents top node) :
    tree.Ordinary node ∧
      (ReflTransGen (Leads tree.flatParent) node top ∨ tree.BelowShownThroughHost node) := by
  induction hpath with
  | refl => exact ⟨htop, .inl .refl⟩
  | @tail parent node _ hmem ih =>
      obtain ⟨hparent, hup⟩ := ih
      have hnode := ((mem_flatChildren_iff hslots).mp hmem).1
      obtain ⟨above, habove⟩ := hlinked.exists_parent_of_mem_flatChildren hslots hmem
      refine ⟨⟨hnode, hlinked.nodeType_ne_of_parent habove⟩, ?_⟩
      have halone := standsAlone_of_not_slot hparent.1 hparent.2
      rcases (hlinked.mem_flatChildren_iff_flatParent hslots hnode halone).mp hmem with hflat | hhost
      · rcases hup with hup | ⟨above, below, hbelow, hhost⟩
        · exact .inl (.head hflat hup)
        · exact .inr ⟨above, below, .head hflat hbelow, hhost⟩
      · exact .inr ⟨parent, node, .refl, hhost⟩

end Linked

end NodeTree

/-- The edit is an append of the document. -/
def Edit.MovesDocument : Edit → Prop
  | .append _ child => child = 0
  | _ => False

namespace Store

/-- The document stands at the top of everything that can be seen from it. -/
structure DocumentAtTop (store : Store) : Prop where
  parent : store.parent 0 = none
  not_mem_children : ∀ node, 0 ∉ store.children node
  not_mem_flatChildren : ∀ node, 0 ∉ store.toTree.flatChildren node
  flatParent : store.toTree.flatParent 0 = none
  walk : ∀ list, ∀ node ∈ all store.toTree list none,
    (walk store.toTree.flatParent store.size node).getLast? = some 0 ∨
      store.toTree.BelowShownThroughHost node

/-! ## The parent of the document -/

theorem Consistent.parent_becomes_eq_none_iff {store : Store} (hconsistent : store.Consistent) {edit : Edit}
    {next : Store} (hnext : store.Becomes edit next) :
    next.parent 0 = none ↔ store.parent 0 = none ∧ ¬ edit.MovesDocument := by
  cases hnext with
  | created hcontent =>
      have hnot : ¬ edit.MovesDocument := by
        cases edit <;> cases hcontent <;> exact id
      rw [parent_create]
      exact (and_iff_left hnot).symm
  | appended hdone =>
      rename_i parent child
      rw [hconsistent.parent_append hdone, Edit.MovesDocument]
      by_cases hchild : child = 0
      · simp [hchild]
      · rw [if_neg (Ne.symm hchild)]
        exact (and_iff_left hchild).symm
  | attributed hdone =>
      rw [parent_setAttribute hdone]
      exact (and_iff_left id).symm
  | hosted hdone =>
      rw [parent_attachShadow hdone]
      exact (and_iff_left id).symm

/-- The document has no parent as long as all appends of it fail. -/
theorem parent_document_eq_none_iff (edits : List Edit) :
    (ofEdits edits).parent 0 = none ↔ ∀ front edit, front ++ [edit] <+: edits → edit.MovesDocument →
      ∃ fault, ((ofEdits front).apply edit).1 = .error fault :=
  ofEdits_iff_forall_error (fun store => store.parent 0 = none) Edit.MovesDocument (parent_new 0)
    (fun _ hconsistent _ _ hnext => hconsistent.parent_becomes_eq_none_iff hnext) edits

/-! ## Below the document -/

theorem Consistent.documentAtTop {store : Store} (hconsistent : store.Consistent)
    (hparent : store.parent 0 = none) : store.DocumentAtTop := by
  have hlinked := hconsistent.linked_toTree
  have hslots : ∀ slot, store.toTree.isSlot slot = true → slot ∈ store.toTree.nodes :=
    fun _ => mem_nodes_of_isSlot
  have hnone : store.toTree.flatParent 0 = none := hlinked.flatParent_eq_none hparent
  refine ⟨hparent, ?_, ?_, hnone, ?_⟩
  · intro node hmem
    rw [hconsistent.mem_children_iff, hparent] at hmem
    contradiction
  · intro node hmem
    obtain ⟨parent, hsome⟩ := hlinked.exists_parent_of_mem_flatChildren hslots hmem
    exact Option.some_ne_none parent (hsome.symm.trans hparent)
  · intro list node hnode
    have hbelow : node ∈ store.toTree.flatDescendants 0 :=
      List.mem_of_mem_filter (List.mem_of_mem_filter hnode)
    obtain ⟨-, child, hchild, hrest⟩ := NodeTree.mem_listBelow_iff.mp hbelow
    have hdown : TransGen store.toTree.Parents 0 node :=
      .head' hchild (NodeTree.parents_path_of_parentsAmong hrest)
    have hdocument : store.toTree.Ordinary 0 :=
      ⟨hconsistent.not_slot_document, hconsistent.nodeType_document_ne⟩
    refine (hlinked.path_or_belowShownThroughHost hslots hdocument hdown.to_reflTransGen).2.imp_left ?_
    intro hup
    have hmem : ∀ other, TransGen (Leads store.toTree.flatParent) node other →
        other ∈ List.range store.size := by
      intro other hother
      obtain ⟨before, -, hlast⟩ := TransGen.tail'_iff.mp hother
      exact List.mem_range.mpr (hconsistent.lt_size_of_flatParent hlast).2
    have hends := endsWithin_of_reflTransGen_none (List.range store.size) hmem hup hnone
    rw [List.length_range] at hends
    have hlast := getLast?_walk hends hup hnone
    cases hwalk : (FlatTree.walk store.toTree.flatParent store.size node).getLast? with
    | some last => rw [← hlast, hwalk, Option.getD_some]
    | none =>
        -- An element is not the document itself, so that the walk has at least one step.
        rw [hwalk, Option.getD_none] at hlast
        have helement : store.toTree.isElement node = true :=
          (List.mem_filter.mp (List.mem_of_mem_filter hnode)).2
        have htype : store.nodeType 0 = .element := hlast ▸ of_decide_eq_true helement
        rw [hconsistent.nodeType_document] at htype
        contradiction

/-- The document is a root exactly as long as all appends of it fail.  Then it is a child of no node, in
the flat tree too, and the way up from whatever a query finds below it ends at the document, but for nodes
below one that is shown through a slot with a shadow root. -/
theorem documentAtTop_iff (edits : List Edit) :
    (ofEdits edits).DocumentAtTop ↔ ∀ front edit, front ++ [edit] <+: edits → edit.MovesDocument →
      ∃ fault, ((ofEdits front).apply edit).1 = .error fault := by
  rw [← parent_document_eq_none_iff]
  exact ⟨DocumentAtTop.parent, (consistent_ofEdits edits).documentAtTop⟩

/-- The document is appended to an element, and is given a child of its own. -/
def documentMoved : List Edit :=
  [.createElement (some htmlNamespace) "div", .append 1 0,
    .createElement (some htmlNamespace) "p", .append 0 2]

/-- The selector `div p`. -/
def belowDivision : SelectorList :=
  [.link [.feature (.type "div")] .descendant (.last [.feature (.type "p")])]

/-- The append of the document goes through.  Then the document is a child, in the flat tree too, and a
selector for what is below a `div` finds its child from the document. -/
theorem documentMoved_below_element :
    ((ofEdits (documentMoved.take 1)).append 1 0).1 = .ok () ∧
      (ofEdits documentMoved).parent 0 = some 1 ∧
      (ofEdits documentMoved).children 1 = [0] ∧
      (ofEdits documentMoved).toTree.flatChildren 1 = [0] ∧
      (ofEdits documentMoved).toTree.flatParent 0 = some 1 ∧
      2 ∈ all (ofEdits documentMoved).toTree belowDivision none ∧
      FlatTree.walk (ofEdits documentMoved).toTree.flatParent (ofEdits documentMoved).size 2 = [0, 1] := by
  have hbelow : 2 ∈ (ofEdits documentMoved).toTree.flatDescendants 0 :=
    NodeTree.mem_listBelow_iff.mpr ⟨by decide +kernel, 2, by decide +kernel, .refl⟩
  have hfound : 2 ∈ all (ofEdits documentMoved).toTree belowDivision none :=
    List.mem_filter.mpr ⟨List.mem_filter.mpr ⟨hbelow, by decide +kernel⟩, by decide +kernel⟩
  exact ⟨by decide +kernel, by decide +kernel, by decide +kernel, by decide +kernel, by decide +kernel,
    hfound, by decide +kernel⟩

end Store

end FlatTree
