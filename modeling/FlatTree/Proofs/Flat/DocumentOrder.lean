import FlatTree.Proofs.Flat.Descendants
import Mathlib.Data.List.Nodup

/-!
# Document order

In document order a node precedes what is below it.  Two nodes of which none is below the other are
compared where their ways up meet: there they come from two children of one node, and the order of these
decides.  Where flat parents never lead back to a node, descendants are listed in this order.  The search
keeps on its stack what is still to be listed, and whatever is below a node on the stack precedes whatever
is below the nodes behind it.
-/

namespace FlatTree

open Relation

/-! ## Places in ordered lists -/

section Places

variable {ν : Type} [DecidableEq ν] {nodes : List ν}

theorem pairwise_idxOf_lt (hnodup : nodes.Nodup) :
    nodes.Pairwise fun left right => nodes.idxOf left < nodes.idxOf right := by
  rw [List.pairwise_iff_getElem]
  intro i j hi hj hlt
  rwa [hnodup.idxOf_getElem, hnodup.idxOf_getElem]

/-- In a list that is ordered by an asymmetric relation the relation is that of the places. -/
theorem idxOf_lt_iff_of_pairwise {r : ν → ν → Prop} (hpairwise : nodes.Pairwise r)
    (hasymm : ∀ left right, r left right → ¬ r right left) {left right : ν}
    (hleft : left ∈ nodes) (hright : right ∈ nodes) :
    nodes.idxOf left < nodes.idxOf right ↔ r left right := by
  have hplaces {left right : ν} (hleft : left ∈ nodes) (hright : right ∈ nodes)
      (hlt : nodes.idxOf left < nodes.idxOf right) : r left right := by
    have hrelated := List.pairwise_iff_getElem.mp hpairwise _ _ (List.idxOf_lt_length_of_mem hleft)
      (List.idxOf_lt_length_of_mem hright) hlt
    rwa [List.getElem_idxOf, List.getElem_idxOf] at hrelated
  refine ⟨hplaces hleft hright, fun hrelated => ?_⟩
  rcases Nat.lt_trichotomy (nodes.idxOf left) (nodes.idxOf right) with hlt | hsame | hgt
  · exact hlt
  · rw [(List.idxOf_inj hleft).mp hsame] at hrelated
    exact absurd hrelated (hasymm right right hrelated)
  · exact absurd (hplaces hright hleft hgt) (hasymm left right hrelated)

end Places

namespace NodeTree

variable {ν : Type}

/-- A node that is neither a slot nor a shadow root. -/
def Ordinary (tree : NodeTree ν) (node : ν) : Prop :=
  tree.isSlot node = false ∧ tree.nodeType node ≠ .shadowRoot

variable [DecidableEq ν]

/-- Flat parents are inverse to flat children and never lead back to a node. -/
structure Forest (tree : NodeTree ν) : Prop where
  mem_flatChildren_iff : ∀ parent node, tree.Ordinary parent →
    (node ∈ tree.flatChildren parent ↔ tree.Ordinary node ∧ tree.flatParent node = some parent)
  ordinary_of_flatParent : ∀ node parent, tree.flatParent node = some parent → tree.Ordinary parent
  mem_nodes : ∀ node parent, tree.flatParent node = some parent → node ∈ tree.nodes
  acyclic : ∀ node, ¬ TransGen (Leads tree.flatParent) node node

/-- The lowest common ancestor of two nodes, and its different children on the ways up from them. -/
structure Fork (tree : NodeTree ν) (first second common left right : ν) : Prop where
  ne : left ≠ right
  left_parent : tree.flatParent left = some common
  right_parent : tree.flatParent right = some common
  left_path : ReflTransGen (Leads tree.flatParent) first left
  right_path : ReflTransGen (Leads tree.flatParent) second right
  lowest : ∀ other, ReflTransGen (Leads tree.flatParent) first other →
    ReflTransGen (Leads tree.flatParent) second other → ReflTransGen (Leads tree.flatParent) common other

/-- Document order: a node is above the other, or its way up comes by an earlier child of their lowest
common ancestor. -/
def Precedes (tree : NodeTree ν) (first second : ν) : Prop :=
  TransGen (Leads tree.flatParent) second first ∨
    ∃ common left right, tree.Fork first second common left right ∧
      (tree.flatChildren common).idxOf left < (tree.flatChildren common).idxOf right

/-- Whatever is below a node on the stack precedes whatever is below the nodes behind it. -/
def InOrder (tree : NodeTree ν) (stack : List ν) : Prop :=
  stack.Pairwise fun left right => ∀ first second, ReflTransGen (Leads tree.flatParent) first left →
    ReflTransGen (Leads tree.flatParent) second right → tree.Precedes first second

variable {tree : NodeTree ν}

theorem Fork.path_to_common {first second common left right : ν}
    (hfork : tree.Fork first second common left right) :
    ReflTransGen (Leads tree.flatParent) first common ∧
      ReflTransGen (Leads tree.flatParent) second common :=
  ⟨hfork.left_path.tail hfork.left_parent, hfork.right_path.tail hfork.right_parent⟩

namespace Forest

variable (hforest : tree.Forest)

include hforest

/-! ## Descendants -/

theorem parents_path_iff {upper node : ν} (hupper : tree.Ordinary upper) :
    ReflTransGen tree.Parents upper node ↔
      tree.Ordinary node ∧ ReflTransGen (Leads tree.flatParent) node upper := by
  constructor
  · intro hpath
    induction hpath with
    | refl => exact ⟨hupper, .refl⟩
    | @tail middle node _ hmem ih =>
        obtain ⟨hnode, hparent⟩ := (hforest.mem_flatChildren_iff middle node ih.1).mp hmem
        exact ⟨hnode, .head hparent ih.2⟩
  · rintro ⟨hnode, hpath⟩
    induction hpath using ReflTransGen.head_induction_on with
    | refl => exact .refl
    | @head node next hparent _ ih =>
        have hnext := hforest.ordinary_of_flatParent node next hparent
        exact (ih hnext).tail ((hforest.mem_flatChildren_iff next node hnext).mpr ⟨hnode, hparent⟩)

theorem parents_transGen_iff {upper node : ν} (hupper : tree.Ordinary upper) :
    TransGen tree.Parents upper node ↔
      tree.Ordinary node ∧ TransGen (Leads tree.flatParent) node upper := by
  rw [TransGen.head'_iff, TransGen.tail'_iff]
  constructor
  · rintro ⟨child, hmem, hpath⟩
    obtain ⟨hchild, hparent⟩ := (hforest.mem_flatChildren_iff upper child hupper).mp hmem
    obtain ⟨hnode, hup⟩ := (hforest.parents_path_iff hchild).mp hpath
    exact ⟨hnode, child, hup, hparent⟩
  · rintro ⟨hnode, child, hup, hparent⟩
    have hchild : tree.Ordinary child := by
      rcases hup.cases_tail with rfl | ⟨before, -, hstep⟩
      · exact hnode
      · exact hforest.ordinary_of_flatParent before child hstep
    exact ⟨child, (hforest.mem_flatChildren_iff upper child hupper).mpr ⟨hchild, hparent⟩,
      (hforest.parents_path_iff hchild).mpr ⟨hnode, hup⟩⟩

/-- The descendants of a node are the nodes that have it among their flat ancestors. -/
theorem mem_flatDescendants_iff {node below : ν} (hnode : tree.Ordinary node) :
    below ∈ tree.flatDescendants node ↔
      tree.Ordinary below ∧ TransGen (Leads tree.flatParent) below node := by
  rw [← hforest.parents_transGen_iff hnode]
  apply NodeTree.mem_flatDescendants_iff
  intro other hpath
  obtain ⟨parent, hparent, -⟩ :=
    TransGen.head'_iff.mp ((hforest.parents_transGen_iff hnode).mp hpath).2
  exact hforest.mem_nodes other parent hparent

/-! ## Forks -/

/-- Where the ways up come from two children, their parent is the lowest common ancestor. -/
theorem fork_of_ne {first second common left right : ν} (hleft : tree.flatParent left = some common)
    (hright : tree.flatParent right = some common)
    (hleftPath : ReflTransGen (Leads tree.flatParent) first left)
    (hrightPath : ReflTransGen (Leads tree.flatParent) second right) (hne : left ≠ right) :
    tree.Fork first second common left right where
  ne := hne
  left_parent := hleft
  right_parent := hright
  left_path := hleftPath
  right_path := hrightPath
  lowest := fun _ => path_of_branches hforest.acyclic hleft hright hne hleftPath hrightPath

theorem not_path_of_fork {first second common left right : ν}
    (hfork : tree.Fork first second common left right) :
    ¬ ReflTransGen (Leads tree.flatParent) first second ∧
      ¬ ReflTransGen (Leads tree.flatParent) second first := by
  constructor
  · intro hpath
    exact hfork.ne (eq_of_leads_same hforest.acyclic hfork.left_parent hfork.right_parent
      hfork.left_path (hpath.trans hfork.right_path))
  · intro hpath
    exact hfork.ne (eq_of_leads_same hforest.acyclic hfork.left_parent hfork.right_parent
      (hpath.trans hfork.left_path) hfork.right_path)

/-- Two nodes do not both precede each other. -/
theorem precedes_asymm (first second : ν) (hprecedes : tree.Precedes first second) :
    ¬ tree.Precedes second first := by
  rintro (hup | ⟨otherCommon, otherLeft, otherRight, hother, hotherPlace⟩)
  · rcases hprecedes with hbelow | ⟨common, left, right, hfork, -⟩
    · exact hforest.acyclic first (hup.trans hbelow)
    · exact (hforest.not_path_of_fork hfork).1 hup.to_reflTransGen
  · rcases hprecedes with hbelow | ⟨common, left, right, hfork, hplace⟩
    · exact (hforest.not_path_of_fork hother).1 hbelow.to_reflTransGen
    · -- Both forks are at the lowest common ancestor, so they have the same branches.
      obtain rfl : common = otherCommon := by
        apply eq_of_paths hforest.acyclic
        · exact hfork.lowest otherCommon hother.path_to_common.2 hother.path_to_common.1
        · exact hother.lowest common hfork.path_to_common.2 hfork.path_to_common.1
      obtain rfl : left = otherRight := eq_of_leads_same hforest.acyclic hfork.left_parent
        hother.right_parent hfork.left_path hother.right_path
      obtain rfl : right = otherLeft := eq_of_leads_same hforest.acyclic hfork.right_parent
        hother.left_parent hfork.right_path hother.left_path
      exact Nat.lt_asymm hplace hotherPlace

/-! ## The order of the listing -/

/-- The children of a node are in order. -/
theorem inOrder_flatChildren {parent : ν} (hparent : tree.Ordinary parent) :
    tree.InOrder (tree.flatChildren parent) := by
  have hnodup : (tree.flatChildren parent).Nodup := nodup_flatChildren parent
  refine List.Pairwise.imp_of_mem ?_ (pairwise_idxOf_lt hnodup)
  intro left right hleft hright hlt first second hfirst hsecond
  have hne : left ≠ right := by
    rintro rfl
    exact Nat.lt_irrefl _ hlt
  have hfork := hforest.fork_of_ne ((hforest.mem_flatChildren_iff parent left hparent).mp hleft).2
    ((hforest.mem_flatChildren_iff parent right hparent).mp hright).2 hfirst hsecond hne
  exact Or.inr ⟨parent, left, right, hfork, hlt⟩

/-- A stack stays in order when its first node is replaced by the children of this node. -/
theorem inOrder_push {node : ν} {stack : List ν} (hnode : tree.Ordinary node)
    (horder : tree.InOrder (node :: stack)) : tree.InOrder (tree.flatChildren node ++ stack) := by
  rw [InOrder, List.pairwise_cons] at horder
  rw [InOrder, List.pairwise_append]
  refine ⟨hforest.inOrder_flatChildren hnode, horder.2, ?_⟩
  intro child hchild right hright first second hfirst hsecond
  have hparent := ((hforest.mem_flatChildren_iff node child hnode).mp hchild).2
  exact horder.1 right hright first second (hfirst.tail hparent) hsecond

/-- A search whose stack is in order lists in document order. -/
theorem pairwise_listBelow {unmet stack : List ν} (hstack : ∀ node ∈ stack, tree.Ordinary node)
    (horder : tree.InOrder stack) : (tree.listBelow unmet stack).Pairwise tree.Precedes := by
  fun_induction tree.listBelow unmet stack with
  | case1 => exact List.Pairwise.nil
  | case2 unmet node stack hmem ih =>
      have hnode := hstack node List.mem_cons_self
      have hnext : ∀ start ∈ tree.flatChildren node ++ stack, tree.Ordinary start := by
        intro start hstart
        rcases List.mem_append.mp hstart with hchild | hbehind
        · exact ((hforest.mem_flatChildren_iff node start hnode).mp hchild).1
        · exact hstack start (List.mem_cons_of_mem node hbehind)
      refine List.pairwise_cons.mpr ⟨?_, ih hnext (hforest.inOrder_push hnode horder)⟩
      intro below hbelow
      obtain ⟨-, start, hstart, hpath⟩ := mem_listBelow_iff.mp hbelow
      have hdown := parents_path_of_parentsAmong hpath
      have hup := ((hforest.parents_path_iff (hnext start hstart)).mp hdown).2
      rcases List.mem_append.mp hstart with hchild | hbehind
      · have hparent := ((hforest.mem_flatChildren_iff node start hnode).mp hchild).2
        exact Or.inl (TransGen.tail' hup hparent)
      · exact (List.pairwise_cons.mp horder).1 start hbehind node below .refl hup
  | case3 unmet node stack hmem ih =>
      exact ih (fun start hstart => hstack start (List.mem_cons_of_mem node hstart))
        (List.pairwise_cons.mp horder).2

/-- Descendants are listed in document order. -/
theorem pairwise_flatDescendants {node : ν} (hnode : tree.Ordinary node) :
    (tree.flatDescendants node).Pairwise tree.Precedes := by
  apply hforest.pairwise_listBelow
  · exact fun child hchild => ((hforest.mem_flatChildren_iff node child hnode).mp hchild).1
  · exact hforest.inOrder_flatChildren hnode

end Forest

/-- A coherent tree whose flat parents never lead back to a node is a forest. -/
theorem Coherent.forest (hcoherent : tree.Coherent)
    (hslots : ∀ slot, tree.isSlot slot = true → slot ∈ tree.nodes)
    (hnodes : ∀ node parent, tree.flatParent node = some parent → node ∈ tree.nodes)
    (hacyclic : ∀ node, ¬ TransGen (Leads tree.flatParent) node node) : tree.Forest where
  mem_flatChildren_iff := by
    intro parent node hparent
    constructor
    · intro hmem
      have hnode := ((mem_flatChildren_iff hslots).mp hmem).1
      obtain ⟨above, habove⟩ := hcoherent.exists_parent_of_mem hslots hparent.1 hparent.2 hmem
      exact ⟨⟨hnode, hcoherent.nodeType_ne_of_parent habove⟩,
        (hcoherent.flatParent_iff_mem hslots hnode hparent.1 hparent.2).mpr hmem⟩
    · rintro ⟨hnode, hleads⟩
      exact (hcoherent.flatParent_iff_mem hslots hnode.1 hparent.1 hparent.2).mp hleads
  ordinary_of_flatParent := by
    intro node parent hparent
    obtain ⟨hhosts, htype⟩ := hcoherent.standsAlone_of_flatParent hslots hparent
    refine ⟨Bool.eq_false_iff.mpr fun hslot => ?_, htype⟩
    have hsome := hhosts hslot
    rw [hcoherent.shadowRoot_slot parent hslot] at hsome
    contradiction
  mem_nodes := hnodes
  acyclic := hacyclic

end NodeTree

end FlatTree
