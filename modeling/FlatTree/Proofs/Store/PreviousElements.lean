import FlatTree.Proofs.Flat.ElementSiblings
import FlatTree.Proofs.Flat.Siblings
import FlatTree.Proofs.Store.Ascent

/-!
# Steps to previous elements

Each step to the previous element finds the flat parent and its children anew, from another node.  In a
store where no slot hosts a shadow root all children of a flat parent have it as their flat parent, however
many slots show them, so the steps stay in one list.  They visit the elements in front of the first one,
nearest first, and come to an end, hence so does every search among general siblings.
-/

namespace FlatTree.Store

open Relation Selector

variable {store : Store}

theorem Consistent.siblingsAgree (hconsistent : store.Consistent)
    (hslots : ∀ slot, store.isSlot slot = true → store.shadowRoot slot = none) :
    store.toTree.SiblingsAgree := by
  intro node parent hparent other hother
  have hcoherent := hconsistent.coherent_toTree hslots
  rcases hcoherent.flatParent_or_shownThroughHost (fun _ => mem_nodes_of_isSlot) hparent hother
    with hshared | ⟨-, -, slot, child, -, hhost, -⟩
  · exact hshared
  · exact absurd hhost (hcoherent.not_showsAsHost slot child)

/-- In a store where no slot hosts a shadow root, the steps from an element with a rank visit the elements
in front of it among the flat children of its flat parent, nearest first, and end after one step less than
its position.  All of them have the same flat parent and the same count, and each one stands one position
before the last.  A search among the general siblings of the element ends, with the result that the bounded
walk gives. -/
theorem previous_elements_visited (edits : List Edit)
    (hslots : ∀ slot, (ofEdits edits).isSlot slot = true → (ofEdits edits).shadowRoot slot = none)
    {element : Nat} {rank : Rank} (hrank : (ofEdits edits).toTree.flatRank element = some rank) :
    let tree := (ofEdits edits).toTree
    ∃ parent front back, tree.flatParent element = some parent ∧
      (tree.flatChildren parent).filter tree.isElement = front ++ element :: back ∧
      rank.position = front.length + 1 ∧
      (∀ index, (fun current => current.bind tree.flatPreviousElement)^[index + 1] (some element) =
        front.reverse[index]?) ∧
      EndsWithin tree.flatPreviousElement (rank.position - 1) element ∧
      (∀ index visited, front[index]? = some visited → tree.flatParent visited = some parent ∧
        tree.flatRank visited = some ⟨index + 1, rank.count⟩) ∧
      tree.flatView.related .general element = front.reverse ∧
      ∀ nearest, tree.flatPreviousElement element = some nearest → ∀ passes,
        SearchEnds tree.flatPreviousElement passes nearest
          ((tree.flatView.related .general element).find? passes) := by
  intro tree
  have hconsistent := consistent_ofEdits edits
  have hagree : tree.SiblingsAgree := hconsistent.siblingsAgree hslots
  have hnodes : ∀ node parent, tree.flatParent node = some parent → node ∈ tree.nodes :=
    fun node parent hparent => List.mem_range.mpr (hconsistent.lt_size_of_flatParent hparent).1
  obtain ⟨parent, front, back, hparent, hsplit, rfl⟩ := NodeTree.exists_split_of_flatRank hrank
  have hends := hagree.endsWithin_length hparent hsplit
  have hrelated := hagree.related_general hnodes hparent hsplit
  refine ⟨parent, front, back, hparent, hsplit, rfl, hagree.iterate_flatPreviousElement hparent hsplit,
    hends, ?_, hrelated, ?_⟩
  · intro index visited hvisited
    have hplace : (tree.flatElements parent)[index]? = some visited := by
      rw [hsplit, List.getElem?_append_left (List.getElem?_eq_some_iff.mp hvisited).1, hvisited]
    have hmem := List.mem_of_getElem? hplace
    have hshared := hagree element parent hparent visited (List.mem_of_mem_filter hmem)
    exact ⟨hshared, NodeTree.flatRank_of_getElem? hshared hplace⟩
  · intro nearest hnearest passes
    have hsearch := searchEnds_of_next passes hends hnearest
    rw [hagree.walk_eq hparent hsplit, List.take_of_length_le (Nat.le_of_eq List.length_reverse)]
      at hsearch
    rwa [hrelated]

/-- Node 1 shows node 3, node 8 through slot 4, a text, and node 7, which is what slot 6 has of its own. -/
def mixedSiblings : List Edit :=
  [.createElement (some htmlNamespace) "div", .append 0 1, .attachShadow 1 .opened,
    .createElement (some htmlNamespace) "b", .append 2 3,
    .createElement (some htmlNamespace) "slot", .setAttribute 4 "name" "front", .append 2 4,
    .createText "text", .append 2 5, .createElement (some htmlNamespace) "slot", .append 2 6,
    .createElement (some htmlNamespace) "i", .append 6 7,
    .createElement (some htmlNamespace) "span", .setAttribute 8 "slot" "front", .append 1 8]

/-- From node 7 the steps visit the nodes 8 and 3.  Each of the three has another parent. -/
theorem previous_elements_visited_mixedSiblings :
    (∀ slot, (ofEdits mixedSiblings).isSlot slot = true →
        (ofEdits mixedSiblings).shadowRoot slot = none) ∧
      (ofEdits mixedSiblings).toTree.flatRank 7 = some ⟨3, 3⟩ ∧
      [3, 8, 7].map (ofEdits mixedSiblings).parent = [some 2, some 1, some 6] ∧
      walk (ofEdits mixedSiblings).toTree.flatPreviousElement 9 7 = [8, 3] ∧
      EndsWithin (ofEdits mixedSiblings).toTree.flatPreviousElement 2 7 ∧
      ∀ passes, SearchEnds (ofEdits mixedSiblings).toTree.flatPreviousElement passes 8
        (((ofEdits mixedSiblings).toTree.flatView.related .general 7).find? passes) := by
  have hbounded : ∀ slot ∈ List.range (ofEdits mixedSiblings).size,
      (ofEdits mixedSiblings).isSlot slot = true → (ofEdits mixedSiblings).shadowRoot slot = none := by
    decide +kernel
  have hslots : ∀ slot, (ofEdits mixedSiblings).isSlot slot = true →
      (ofEdits mixedSiblings).shadowRoot slot = none :=
    fun slot hslot => hbounded slot (mem_nodes_of_isSlot hslot) hslot
  have hrank : (ofEdits mixedSiblings).toTree.flatRank 7 = some ⟨3, 3⟩ := by decide +kernel
  obtain ⟨-, -, -, -, -, -, -, hends, -, -, hsearch⟩ :=
    previous_elements_visited mixedSiblings hslots hrank
  exact ⟨hslots, hrank, by decide +kernel, by decide +kernel, hends, hsearch 8 (by decide +kernel)⟩

end FlatTree.Store
