import FlatTree.Selector.Parser

/-!
# Remembered selectors

A memo keeps the selector lists that were parsed last, at most as many as its capacity.  When it is full
the oldest one makes room.  Texts that do not parse are never kept.  Memory is not modelled: room for the
entries is not reserved, so a memo can be made with a capacity that no memory has.
-/

namespace FlatTree.Selector

structure Parsed where
  list : SelectorList
  /-- The number of the parse that made the list, so that two parses of one text can be told apart. -/
  serial : Nat

structure Memo where
  capacity : Nat
  limit : Nat
  /-- The texts that are kept, each with what it was parsed to. -/
  store : List (String × Parsed)
  /-- The texts in the order in which they were kept, oldest first. -/
  order : List String
  /-- The number of successful parses so far. -/
  parses : Nat

namespace Memo

/-- An empty memo for texts with at most `limit` levels of `:not()`. -/
def new (capacity limit : Nat) : Memo :=
  ⟨capacity, min limit SelectorList.greatestLimit, [], [], 0⟩

def size (memo : Memo) : Nat :=
  memo.store.length

def remembered? (memo : Memo) (text : String) : Option Parsed :=
  memo.store.lookup text

/-- Takes away the text that was kept first. -/
def dropOldest (memo : Memo) : Memo :=
  match memo.order with
  | [] => memo
  | oldest :: later =>
    { memo with store := memo.store.filter fun entry => entry.1 ≠ oldest, order := later }

/-- Keeps what a text was parsed to, in place of what was kept for it before. -/
def insert (memo : Memo) (text : String) (parsed : Parsed) : Memo :=
  { memo with
    store := (text, parsed) :: memo.store.filter fun entry => entry.1 ≠ text
    order := memo.order ++ [text] }

/-- Counts a parse and keeps its result behind all others, unless the memo has no room at all. -/
def keep (memo : Memo) (text : String) (list : SelectorList) : Memo :=
  let counted := { memo with parses := memo.parses + 1 }
  if memo.capacity = 0 then
    counted
  else
    let room := if memo.capacity ≤ memo.order.length then counted.dropOldest else counted
    room.insert text ⟨list, memo.parses⟩

/-- The list kept for a text, or else what comes of parsing it, and the memo that is left after it. -/
def parse (memo : Memo) (text : String) : Except (Fault Nat) Parsed × Memo :=
  match memo.remembered? text with
  | some parsed => (.ok parsed, memo)
  | none =>
    match SelectorList.parseWithin memo.limit text with
    | .error fault => (.error fault, memo)
    | .ok list => (.ok ⟨list, memo.parses⟩, memo.keep text list)

def forget (memo : Memo) : Memo :=
  { memo with store := [], order := [] }

end Memo

end FlatTree.Selector
