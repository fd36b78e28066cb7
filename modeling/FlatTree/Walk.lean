/-!
# Walks

A walk follows a step that may end, such as the step to a parent, for at most a given number of times.
-/

namespace FlatTree

/-- The nodes that at most so many steps lead to, nearest first. -/
def walk {ν : Type} (step : ν → Option ν) : (steps : Nat) → ν → List ν
  | 0, _ => []
  | steps + 1, node =>
    match step node with
    | none => []
    | some next => next :: walk step steps next

end FlatTree
