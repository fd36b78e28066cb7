import FlatTree.Text.Unprintable

/-!
# Quoted characters and strings

A character or string is quoted by its delimiter at both ends.  The delimiter, the backslash and the
usual controls are written as a backslash and one character; a character with no printed form of its
own is written by its code point in hexadecimal.
-/

namespace FlatTree.Text

def hexadecimal (code : Nat) : List Char :=
  Nat.toDigits 16 code

/-- The written form of `c` between two delimiters. -/
def escaped (delimiter c : Char) : List Char :=
  if c = '\x00' then ['\\', '0']
  else if c = '\t' then ['\\', 't']
  else if c = '\n' then ['\\', 'n']
  else if c = '\r' then ['\\', 'r']
  else if c = '\\' || c = delimiter then ['\\', c]
  else if isUnprintable c then '\\' :: 'u' :: '\x7b' :: hexadecimal c.toNat ++ ['\x7d']
  else [c]

def quoted (delimiter : Char) (text : List Char) : String :=
  String.ofList (delimiter :: text.flatMap (escaped delimiter) ++ [delimiter])

def quotedChar (c : Char) : String :=
  quoted '\'' [c]

def quotedString (text : List Char) : String :=
  quoted '"' text

end FlatTree.Text
