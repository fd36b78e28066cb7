import FlatTree.Query.Session
import FlatTree.Selector.Outcome

/-!
# Queries as runs that can end early

Candidates are tested in their order, and a test that has no result ends the query without an answer.
Lookups by name test no positions and always have one.
-/

namespace FlatTree.Query

open Selector

variable {ν : Type} [DecidableEq ν] (tree : NodeTree ν)

def all? (list : SelectorList) (context : Option ν) : Option (List ν) :=
  let view := tree.flatView
  (candidates tree context).filterM fun element => view.acceptsList? element list

def first? (list : SelectorList) (context : Option ν) : Option (Option ν) :=
  let view := tree.flatView
  (candidates tree context).findM? fun element => view.acceptsList? element list

def holdsAt? (list : SelectorList) (node : ν) : Option Bool :=
  if tree.isElement node then tree.flatView.acceptsList? node list else some false

def nearest? (list : SelectorList) (context : Option ν) : Option (Option ν) :=
  let node := context.getD tree.document
  let view := tree.flatView
  (node :: walk tree.flatParent tree.nodes.length node).findM? fun node =>
    if tree.isElement node then view.acceptsList? node list else some false

def Selection.answer? (list : SelectorList) : Selection ν → Option (Answer ν)
  | .all context => (all? tree list context).map .nodes
  | .first context => (first? tree list context).map .node
  | .nearest context => (nearest? tree list context).map .node
  | .holdsAt node => (holdsAt? tree list node).map .truth

def Question.answer? : Question ν → Option (Except (Fault Nat) (Answer ν))
  | select selector selection =>
    match SelectorList.parse selector with
    | .error fault => some (.error fault)
    | .ok list => (selection.answer? tree list).map .ok
  | find lookup => some (.ok (lookup.answer tree))

/-- The answer to a question, and the session that is left after it, if the answer comes. -/
def Session.answer? (session : Session ν) :
    Question ν → Option (Except (Fault Nat) (Answer ν) × Session ν)
  | .select selector selection =>
    match session.memo.parse selector with
    | (.error fault, memo) => some (.error fault, { session with memo })
    | (.ok parsed, memo) =>
      (selection.answer? session.tree parsed.list).map fun answer => (.ok answer, { session with memo })
  | .find lookup => some (.ok (lookup.answer session.tree), session)

end FlatTree.Query
