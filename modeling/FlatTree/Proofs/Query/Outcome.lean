import FlatTree.Proofs.Flat.ElementPositions
import FlatTree.Proofs.Selector.Outcome
import FlatTree.Query.Outcome

/-!
# Queries that end with an answer

What comes of a query is the answer that it has without a stop, or nothing.  A tree in which no node has as
many as 2^62 flat children gives each query its answer, since no position of such a tree is near the limit of
64 bits.
-/

namespace FlatTree

open Selector

variable {ν : Type} [DecidableEq ν]

/-! ## Trees whose positions stay clear -/

namespace NodeTree

variable {tree : NodeTree ν}

theorem staysClear_of_few (hfew : ∀ node, (tree.flatChildren node).length < 2 ^ 62) :
    tree.flatView.StaysClear := by
  intro node
  rw [ElementView.rankOf, flatView_rank]
  cases hrank : tree.flatRank node with
  | none => decide
  | some rank =>
      obtain ⟨parent, front, back, -, hsplit, rfl⟩ := exists_split_of_flatRank hrank
      have hlength := congrArg List.length hsplit
      have helements : (tree.flatElements parent).length < 2 ^ 62 :=
        Nat.lt_of_le_of_lt (List.length_filter_le _ _) (hfew parent)
      rw [List.length_append, List.length_cons] at hlength
      dsimp only [Option.getD_some]
      omega

end NodeTree

/-! ## What comes of a query -/

namespace Query

variable (tree : NodeTree ν) (list : SelectorList)

theorem all?_yields (context : Option ν) :
    Yields tree.flatView.StaysClear (all? tree list context) (all tree list context) :=
  Yields.filterM (fun element => tree.flatView.acceptsList?_yields element list) _

theorem first?_yields (context : Option ν) :
    Yields tree.flatView.StaysClear (first? tree list context) (first tree list context) :=
  Yields.findM? (fun element => tree.flatView.acceptsList?_yields element list) _

theorem holdsAt?_yields (node : ν) :
    Yields tree.flatView.StaysClear (holdsAt? tree list node) (holdsAt tree list node) :=
  (tree.flatView.acceptsList?_yields node list).guarded _

theorem nearest?_yields (context : Option ν) :
    Yields tree.flatView.StaysClear (nearest? tree list context) (nearest tree list context) :=
  Yields.findM? (holdsAt?_yields tree list) _

theorem Selection.answer?_yields (selection : Selection ν) :
    Yields tree.flatView.StaysClear (selection.answer? tree list) (selection.answer tree list) := by
  cases selection with
  | all context => exact (all?_yields tree list context).map _
  | first context => exact (first?_yields tree list context).map _
  | nearest context => exact (nearest?_yields tree list context).map _
  | holdsAt node => exact (holdsAt?_yields tree list node).map _

theorem Question.answer?_yields (question : Question ν) :
    Yields tree.flatView.StaysClear (question.answer? tree) (question.answer tree) := by
  cases question with
  | find lookup => exact Yields.pure _
  | select selector selection =>
      rw [answer?, answer]
      cases SelectorList.parse selector with
      | error fault => exact Yields.pure _
      | ok list => exact (selection.answer?_yields tree list).map _

theorem Session.answer?_yields (session : Session ν) (question : Question ν) :
    Yields session.tree.flatView.StaysClear (session.answer? question) (session.answer question) := by
  cases question with
  | find lookup => exact Yields.pure _
  | select selector selection =>
      rw [Session.answer?, Session.answer]
      rcases session.memo.parse selector with ⟨fault | parsed, memo⟩
      · exact Yields.pure _
      · exact (selection.answer?_yields session.tree parsed.list).map _

/-- Whatever answer comes of a question is the answer that it has without a stop.  In a tree in which no
node has as many as 2^62 flat children the answer always comes, within a session and without one. -/
theorem answer?_agrees (tree : NodeTree ν) (question : Question ν) :
    (∀ found, question.answer? tree = some found → found = question.answer tree) ∧
    ((∀ node, (tree.flatChildren node).length < 2 ^ 62) →
      question.answer? tree = some (question.answer tree) ∧
        ∀ session : Session ν, session.tree = tree →
          session.answer? question = some (session.answer question)) := by
  refine ⟨fun _ hfound => (question.answer?_yields tree).eq_of_eq_some hfound, fun hfew => ?_⟩
  have hclear := NodeTree.staysClear_of_few hfew
  refine ⟨(question.answer?_yields tree).eq_some hclear, ?_⟩
  rintro session rfl
  exact (session.answer?_yields question).eq_some hclear

end Query

end FlatTree
