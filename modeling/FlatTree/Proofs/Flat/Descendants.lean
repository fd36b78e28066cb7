import FlatTree.Flat.Descendants
import FlatTree.Proofs.Flat.Content
import FlatTree.Proofs.Flat.Rooted

/-!
# Descendants and paths

The list of descendants holds every node that one or more steps to a flat child lead to, and each of them
once.  A search that does not enter a node again misses nothing: the way behind the last visit of that
node is left.
-/

namespace FlatTree

open Relation

/-- A path either never leaves a given node or can be entered at that node. -/
theorem avoids_or_enters {ν : Type} {r : ν → ν → Prop} {first last : ν} (node : ν)
    (hpath : ReflTransGen r first last) :
    ReflTransGen (fun left right => left ≠ node ∧ r left right) first last ∨
      ReflTransGen r node last := by
  induction hpath using ReflTransGen.head_induction_on with
  | refl => exact Or.inl .refl
  | @head first next hstep hrest ih =>
      by_cases hfirst : first = node
      · rw [← hfirst]
        exact Or.inr (.head hstep hrest)
      · rcases ih with havoids | henters
        · exact Or.inl (.head ⟨hfirst, hstep⟩ havoids)
        · exact Or.inr henters

namespace NodeTree

variable {ν : Type} [DecidableEq ν] {tree : NodeTree ν}

/-- A step to a flat child from a node that is still to be met. -/
def ParentsAmong (tree : NodeTree ν) (unmet : List ν) (parent node : ν) : Prop :=
  parent ∈ unmet ∧ tree.Parents parent node

theorem parents_path_of_parentsAmong {unmet : List ν} {first last : ν}
    (hpath : ReflTransGen (tree.ParentsAmong unmet) first last) :
    ReflTransGen tree.Parents first last :=
  ReflTransGen.mono (fun _ _ hstep => hstep.2) _ _ hpath

theorem mem_listBelow_iff {unmet stack : List ν} {node : ν} :
    node ∈ tree.listBelow unmet stack ↔
      node ∈ unmet ∧ ∃ start ∈ stack, ReflTransGen (tree.ParentsAmong unmet) start node := by
  fun_induction tree.listBelow unmet stack with
  | case1 => simp
  | case2 unmet first stack hmem ih =>
      rw [List.mem_cons, ih, mem_without]
      constructor
      · rintro (rfl | ⟨⟨hnode, -⟩, start, hstart, hpath⟩)
        · exact ⟨hmem, node, List.mem_cons_self, .refl⟩
        · have hwider : ReflTransGen (tree.ParentsAmong unmet) start node := by
            refine ReflTransGen.mono ?_ _ _ hpath
            rintro left right ⟨hleft, hstep⟩
            exact ⟨(mem_without.mp hleft).1, hstep⟩
          rcases List.mem_append.mp hstart with hchild | hbehind
          · exact ⟨hnode, first, List.mem_cons_self, .head ⟨hmem, hchild⟩ hwider⟩
          · exact ⟨hnode, start, List.mem_cons_of_mem first hbehind, hwider⟩
      · rintro ⟨hnode, start, hstart, hpath⟩
        by_cases hsame : node = first
        · exact Or.inl hsame
        · refine Or.inr ⟨⟨hnode, hsame⟩, ?_⟩
          have hnarrower {from_ : ν} (havoids : ReflTransGen (fun left right => left ≠ first ∧
              tree.ParentsAmong unmet left right) from_ node) :
              ReflTransGen (tree.ParentsAmong (without unmet first)) from_ node := by
            refine ReflTransGen.mono ?_ _ _ havoids
            rintro left right ⟨hne, hleft, hstep⟩
            exact ⟨mem_without.mpr ⟨hleft, hne⟩, hstep⟩
          have hbelow (henters : ReflTransGen (tree.ParentsAmong unmet) first node) :
              ∃ start ∈ tree.flatChildren first ++ stack,
                ReflTransGen (tree.ParentsAmong (without unmet first)) start node := by
            rcases exists_departure henters with hfirst | ⟨next, hnext, havoids⟩
            · exact absurd hfirst.symm hsame
            · exact ⟨next, List.mem_append_left stack hnext.2, hnarrower havoids⟩
          rcases List.mem_cons.mp hstart with rfl | hbehind
          · exact hbelow hpath
          · rcases avoids_or_enters first hpath with havoids | henters
            · exact ⟨start, List.mem_append_right _ hbehind, hnarrower havoids⟩
            · exact hbelow henters
  | case3 unmet first stack hmem ih =>
      rw [ih]
      apply and_congr_right
      intro hnode
      constructor
      · rintro ⟨start, hstart, hpath⟩
        exact ⟨start, List.mem_cons_of_mem first hstart, hpath⟩
      · rintro ⟨start, hstart, hpath⟩
        rcases List.mem_cons.mp hstart with rfl | hbehind
        · rcases hpath.cases_head with rfl | ⟨next, ⟨hunmet, -⟩, -⟩
          · contradiction
          · contradiction
        · exact ⟨start, hbehind, hpath⟩

theorem nodup_listBelow (unmet stack : List ν) : (tree.listBelow unmet stack).Nodup := by
  fun_induction tree.listBelow unmet stack with
  | case1 => exact List.nodup_nil
  | case2 unmet node stack hmem ih =>
      rw [List.nodup_cons, mem_listBelow_iff, mem_without]
      exact ⟨fun hagain => hagain.1.2 rfl, ih⟩
  | case3 unmet node stack hmem ih => exact ih

theorem nodup_flatDescendants (node : ν) : (tree.flatDescendants node).Nodup :=
  nodup_listBelow _ _

/-- The descendants of a node are what flat children lead to, as far as all of that is among the nodes of
the tree. -/
theorem mem_flatDescendants_iff {node below : ν}
    (hnodes : ∀ other, TransGen tree.Parents node other → other ∈ tree.nodes) :
    below ∈ tree.flatDescendants node ↔ TransGen tree.Parents node below := by
  rw [flatDescendants, mem_listBelow_iff]
  constructor
  · rintro ⟨-, child, hchild, hpath⟩
    exact .head' hchild (parents_path_of_parentsAmong hpath)
  · intro hpath
    refine ⟨hnodes below hpath, ?_⟩
    rw [TransGen.head'_iff] at hpath
    obtain ⟨child, hchild, hrest⟩ := hpath
    refine ⟨child, hchild, ?_⟩
    induction hrest with
    | refl => exact .refl
    | @tail middle below hfront hstep ih =>
        exact ih.tail ⟨hnodes middle (.head' hchild hfront), hstep⟩

/-- What is shown has all nodes below it as descendants. -/
theorem Rooted.mem_flatDescendants_iff (hrooted : tree.Rooted) {node below : ν}
    (hshown : tree.Shown node) :
    below ∈ tree.flatDescendants node ↔ TransGen tree.Parents node below := by
  apply NodeTree.mem_flatDescendants_iff
  intro other hpath
  exact hrooted.mem_nodes other (hshown.trans hpath.to_reflTransGen)

theorem Rooted.shown_of_mem_flatDescendants (hrooted : tree.Rooted) {node below : ν}
    (hshown : tree.Shown node) (hbelow : below ∈ tree.flatDescendants node) : tree.Shown below :=
  hshown.trans ((hrooted.mem_flatDescendants_iff hshown).mp hbelow).to_reflTransGen

end NodeTree

end FlatTree
