import FlatTree.Query.Basic

/-!
# Questions and answers

Everything that can be asked of a tree, as a value.  A question either applies a selector, which can
fail to parse, or looks elements up by a name and always has an answer.
-/

namespace FlatTree.Query

open Selector

variable {ν : Type}

/-- What is asked of a selector. -/
inductive Selection (ν : Type) where
  | all (context : Option ν)
  | first (context : Option ν)
  | nearest (context : Option ν)
  | holdsAt (node : ν)

/-- Questions that need no selector. -/
inductive Lookup (ν : Type) where
  | byClass (names : String) (context : Option ν)
  | byTag (name : String) (context : Option ν)
  | byTagIn (space name : String) (context : Option ν)
  | byId (name : String) (context : Option ν)
  | byName (name : String) (context : Option ν)

inductive Question (ν : Type) where
  | select (selector : String) (selection : Selection ν)
  | find (lookup : Lookup ν)

inductive Answer (ν : Type) where
  | nodes (found : List ν)
  | node (found : Option ν)
  | truth (holds : Bool)
deriving DecidableEq

variable [DecidableEq ν] (tree : NodeTree ν)

def Selection.answer (list : SelectorList) : Selection ν → Answer ν
  | .all context => .nodes (Query.all tree list context)
  | .first context => .node (Query.first tree list context)
  | .nearest context => .node (Query.nearest tree list context)
  | .holdsAt node => .truth (Query.holdsAt tree list node)

def Lookup.answer : Lookup ν → Answer ν
  | .byClass names context => .nodes (Query.byClass tree names context)
  | .byTag name context => .nodes (Query.byTag tree name context)
  | .byTagIn space name context => .nodes (Query.byTagIn tree space name context)
  | .byId name context => .node (Query.byId tree name context)
  | .byName name context => .nodes (Query.byName tree name context)

def Question.answer : Question ν → Except (Fault Nat) (Answer ν)
  | select selector selection => (SelectorList.parse selector).map (selection.answer tree)
  | find lookup => .ok (lookup.answer tree)

end FlatTree.Query
