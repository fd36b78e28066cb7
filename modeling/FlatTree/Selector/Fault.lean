import FlatTree.Text.Quoted

/-!
# Malformed selectors

The causes for which a text is no selector list.  Most of them name a place: while reading, the text
that still stood there; in the answer, its offset in bytes.
-/

namespace FlatTree.Selector

inductive Fault (place : Type) where
  /-- The text is blank. -/
  | blank
  | missingCompound (position : place)
  | unexpected (found : Char) (position : place)
  | unbalanced (position : place)
  /-- The text ends before the bracket that opens at the place is closed. -/
  | unclosedBracket (position : place)
  | unclosedString (position : place)
  | unknownPseudoClass (name : String) (position : place)
  | invalidNth (argument : List Char)
  | invalidAttribute (position : place)
  | tooDeep (limit : Nat)
deriving DecidableEq

namespace Fault

variable {place other : Type}

def map (convert : place → other) : Fault place → Fault other
  | blank => blank
  | missingCompound position => missingCompound (convert position)
  | unexpected found position => unexpected found (convert position)
  | unbalanced position => unbalanced (convert position)
  | unclosedBracket position => unclosedBracket (convert position)
  | unclosedString position => unclosedString (convert position)
  | unknownPseudoClass name position => unknownPseudoClass name (convert position)
  | invalidNth argument => invalidNth argument
  | invalidAttribute position => invalidAttribute (convert position)
  | tooDeep limit => tooDeep limit

def message : Fault Nat → String
  | blank => "selector is empty"
  | missingCompound position => s!"expected a compound selector at offset {position}"
  | unexpected found position =>
    "unexpected character " ++ Text.quotedChar found ++ s!" at offset {position}"
  | unbalanced position => s!"unbalanced parenthesis at offset {position}"
  | unclosedBracket position => s!"unclosed attribute selector at offset {position}"
  | unclosedString position => s!"unterminated string starting at offset {position}"
  | unknownPseudoClass name position => s!"unknown pseudo-class ':{name}' at offset {position}"
  | invalidNth argument => "invalid an+b expression " ++ Text.quotedString argument
  | invalidAttribute position => s!"invalid attribute selector at offset {position}"
  | tooDeep limit => s!"selector nesting exceeds {limit} levels"

end Fault

end FlatTree.Selector
