import FlatTree.Flat.Basic
import FlatTree.Proofs.Walk

/-!
# What is shown through slots

A slot shows what it stands for, and where that is a slot again, what this one shows in turn.  The
children of a node in the flat tree are the nodes that are reached through slots from what stands for its
children.  The list of slots that may still be replaced only cuts off ways that come back to a slot.
-/

namespace FlatTree.NodeTree

open Relation

variable {ν : Type}

/-- A node is among what a slot stands for. -/
def Shows (tree : NodeTree ν) (slot node : ν) : Prop :=
  tree.isSlot slot = true ∧ node ∈ tree.standsFor slot

theorem mem_standsFor_iff {tree : NodeTree ν} {slot node : ν} :
    node ∈ tree.standsFor slot ↔
      node ∈ tree.assignedNodes slot ∨ tree.assignedNodes slot = [] ∧ node ∈ tree.children slot := by
  rw [standsFor]
  cases hassigned : tree.assignedNodes slot with
  | nil => simp
  | cons first others => simp

variable [DecidableEq ν] {tree : NodeTree ν}

@[simp]
theorem mem_without {nodes : List ν} {node other : ν} :
    other ∈ without nodes node ↔ other ∈ nodes ∧ other ≠ node := by
  simp [without]

/-- What stands in place of a node are the nodes other than slots that slots among the unused ones lead
to from there. -/
theorem mem_expand_iff {unused : List ν} {node shown : ν} :
    shown ∈ tree.expand unused node ↔ tree.isSlot shown = false ∧
      ReflTransGen (fun slot below => slot ∈ unused ∧ tree.Shows slot below) node shown := by
  fun_induction tree.expand unused node with
  | case1 unused slot hslot hmem ih =>
      simp only [List.mem_flatMap, ih]
      constructor
      · rintro ⟨below, hbelow, hshown, hpath⟩
        refine ⟨hshown, ReflTransGen.head ⟨hmem, hslot, hbelow⟩ (ReflTransGen.mono ?_ _ _ hpath)⟩
        rintro left right ⟨hleft, hshows⟩
        exact ⟨(mem_without.mp hleft).1, hshows⟩
      · rintro ⟨hshown, hpath⟩
        rcases exists_departure hpath with rfl | ⟨below, ⟨-, hbelow⟩, hpath⟩
        · rw [hslot] at hshown
          contradiction
        · refine ⟨below, hbelow.2, hshown, ReflTransGen.mono ?_ _ _ hpath⟩
          rintro left right ⟨hne, hleft, hshows⟩
          exact ⟨mem_without.mpr ⟨hleft, hne⟩, hshows⟩
  | case2 unused slot hslot hmem =>
      simp only [List.not_mem_nil, false_iff, not_and]
      intro hshown hpath
      rcases hpath.cases_head with rfl | ⟨below, ⟨hunused, -⟩, -⟩
      · rw [hslot] at hshown
        contradiction
      · exact hmem hunused
  | case3 unused node hslot =>
      rw [List.mem_singleton]
      constructor
      · rintro rfl
        exact ⟨Bool.eq_false_iff.mpr hslot, .refl⟩
      · rintro ⟨-, hpath⟩
        rcases hpath.cases_head with rfl | ⟨below, ⟨-, hshows⟩, -⟩
        · rfl
        · exact absurd hshows.1 hslot

theorem mem_flatChildren_iff (hslots : ∀ slot, tree.isSlot slot = true → slot ∈ tree.nodes)
    {parent node : ν} :
    node ∈ tree.flatChildren parent ↔ tree.isSlot node = false ∧
      ∃ base ∈ tree.unexpanded parent, ReflTransGen tree.Shows base node := by
  have hpath (base : ν) : ReflTransGen
      (fun slot below => slot ∈ tree.nodes ∧ tree.Shows slot below) base node ↔
        ReflTransGen tree.Shows base node := by
    constructor
    · apply ReflTransGen.mono
      exact fun _ _ hstep => hstep.2
    · apply ReflTransGen.mono
      exact fun _ _ hshows => ⟨hslots _ hshows.1, hshows⟩
  simp only [flatChildren, List.mem_eraseDups, List.mem_flatMap, mem_expand_iff, hpath]
  constructor
  · rintro ⟨base, hbase, hnode, hshown⟩
    exact ⟨hnode, base, hbase, hshown⟩
  · rintro ⟨hnode, base, hbase, hshown⟩
    exact ⟨base, hbase, hnode, hshown⟩

theorem nodup_eraseDups (nodes : List ν) : nodes.eraseDups.Nodup := by
  induction hlength : nodes.length using Nat.strongRecOn generalizing nodes with
  | ind length ih =>
      cases nodes with
      | nil => exact List.nodup_nil
      | cons node nodes =>
          rw [List.eraseDups_cons, List.nodup_cons]
          constructor
          · simp
          · apply ih _ _ _ rfl
            have := List.length_filter_le (fun other => !other == node) nodes
            simp only [List.length_cons] at hlength
            omega

theorem nodup_flatChildren (parent : ν) : (tree.flatChildren parent).Nodup :=
  nodup_eraseDups _

end FlatTree.NodeTree
