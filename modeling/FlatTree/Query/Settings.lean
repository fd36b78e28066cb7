import FlatTree.Selector.Parser
import FlatTree.Text.Blank

/-!
# Settings of a session

Settings come as numbers or as text.  A text that is no number of 64 bits counts as missing, and a missing
setting has its default value.
-/

namespace FlatTree.Query

open Selector

structure Settings where
  /-- The nesting of `:not()` that a session accepts. -/
  depth : Nat
  /-- The number of parsed selectors that a session keeps. -/
  capacity : Nat
deriving DecidableEq

namespace Settings

def defaultCapacity : Nat := 64

/-- The depth is at least one and at most the greatest limit of any selector. -/
def new (depth capacity : Nat) : Settings :=
  ⟨max 1 (min depth SelectorList.greatestLimit), capacity⟩

def default : Settings :=
  new SelectorList.defaultLimit defaultCapacity

/-- The number in a text, which white space may surround and a plus may open. -/
def readNumber? (text : String) : Option Nat :=
  let value :=
    match Text.trim text.toList with
    | '+' :: digits => Text.readDigits? digits
    | digits => Text.readDigits? digits
  value.filter (· < UInt64.size)

def ofTexts (depth capacity : Option String) : Settings :=
  new ((depth.bind readNumber?).getD SelectorList.defaultLimit)
    ((capacity.bind readNumber?).getD defaultCapacity)

end Settings

end FlatTree.Query
