/-!
# White space in general text

The characters with the Unicode property `White_Space`, and trimming by them.
-/

namespace FlatTree.Text

/-- The white space characters, as ranges of code points with both ends included. -/
def blankRanges : List (Nat × Nat) :=
  [(0x09, 0x0D), (0x20, 0x20), (0x85, 0x85), (0xA0, 0xA0), (0x1680, 0x1680), (0x2000, 0x200A),
    (0x2028, 0x2029), (0x202F, 0x202F), (0x205F, 0x205F), (0x3000, 0x3000)]

def isBlank (c : Char) : Bool :=
  blankRanges.any fun range => range.1 ≤ c.toNat && c.toNat ≤ range.2

def trim (text : List Char) : List Char :=
  ((text.dropWhile isBlank).reverse.dropWhile isBlank).reverse

example : (blankRanges.map fun range => range.2 + 1 - range.1).sum = 25 := by
  decide

end FlatTree.Text
