/-!
# Character references

Five references stand for characters that markup cannot hold as they are or that are hard to see.  An
ampersand that opens none of them stands for itself.
-/

namespace FlatTree.Markup

def references : List (List Char × Char) :=
  [("&amp;".toList, '&'), ("&lt;".toList, '<'), ("&gt;".toList, '>'), ("&quot;".toList, '"'),
    ("&nbsp;".toList, '\u00A0')]

/-- The character that a reference at the front of a text stands for, and the length of the reference. -/
def reference? (text : List Char) : Option (Char × Nat) :=
  (references.find? fun reference => reference.1.isPrefixOf text).map fun reference =>
    (reference.2, reference.1.length)

/-- Replaces the references in a text. -/
def decode (text : List Char) : List Char :=
  match text with
  | [] => []
  | c :: rest =>
    match reference? (c :: rest) with
    | none => c :: decode rest
    | some (character, length) => character :: decode (rest.drop (length - 1))
termination_by text.length
decreasing_by
  · exact Nat.lt_succ_self _
  · rw [List.length_drop, List.length_cons]
    omega

end FlatTree.Markup
