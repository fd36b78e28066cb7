import FlatTree.Query.Question
import FlatTree.Query.Settings
import FlatTree.Selector.Memo

/-!
# Sessions

A session answers questions about one tree and remembers the selectors that it has parsed.  Its memory
holds nothing but selectors, and its answers do not depend on its memory.
-/

namespace FlatTree.Query

open Selector

structure Session (ν : Type) where
  tree : NodeTree ν
  settings : Settings
  memo : Memo

namespace Session

variable {ν : Type}

def withSettings (tree : NodeTree ν) (settings : Settings) : Session ν :=
  ⟨tree, settings, .new settings.capacity settings.depth⟩

def new (tree : NodeTree ν) : Session ν :=
  withSettings tree .default

variable [DecidableEq ν]

/-- The answer to a question, and the session that is left after it. -/
def answer (session : Session ν) : Question ν → Except (Fault Nat) (Answer ν) × Session ν
  | .select selector selection =>
    match session.memo.parse selector with
    | (.error fault, memo) => (.error fault, { session with memo })
    | (.ok parsed, memo) => (.ok (selection.answer session.tree parsed.list), { session with memo })
  | .find lookup => (.ok (lookup.answer session.tree), session)

end Session

end FlatTree.Query
