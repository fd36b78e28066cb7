/-!
# Blanks and letters of ASCII

Selectors and class lists know five blank characters: tab, line feed, form feed, carriage return and
space.  Letter case is folded for the letters `A` to `Z` only; every other character stands for itself.
-/

namespace FlatTree.Text

def isAsciiBlank (c : Char) : Bool :=
  c = '\t' || c = '\n' || c = '\x0c' || c = '\r' || c = ' '

def isAscii (c : Char) : Bool :=
  c.toNat < 128

def trimAsciiStart (text : List Char) : List Char :=
  text.dropWhile isAsciiBlank

def trimAscii (text : List Char) : List Char :=
  (trimAsciiStart (trimAsciiStart text).reverse).reverse

def asciiLower (text : List Char) : List Char :=
  text.map Char.toLower

def lowered (text : String) : String :=
  String.ofList (asciiLower text.toList)

/-- Equality of names up to the case of ASCII letters. -/
def sameUpToCase (left right : String) : Bool :=
  asciiLower left.toList = asciiLower right.toList

/-- The maximal runs of characters that are not blank. -/
def tokens (text : String) : List String :=
  ((text.toList.splitOnP isAsciiBlank).filter fun piece => !piece.isEmpty).map String.ofList

end FlatTree.Text
