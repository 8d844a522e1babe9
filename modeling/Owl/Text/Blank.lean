/-
Blank characters and trimming.

A blank is a white space of Unicode or one of the four information separators
U+001C to U+001F.
-/
import Owl.Text.Ranges

namespace Owl.Text

/-- The blank characters, as closed ranges in rising order. -/
def blankRanges : List (Nat × Nat) := [
  (9, 13), (28, 32), (133, 133), (160, 160), (5760, 5760), (8192, 8202), (8232, 8233),
  (8239, 8239), (8287, 8287), (12288, 12288)]

def isBlank (c : Char) : Bool :=
  inRanges blankRanges c.toNat

def trimEnd (cs : List Char) : List Char :=
  (cs.reverse.dropWhile isBlank).reverse

def trim (cs : List Char) : List Char :=
  trimEnd (cs.dropWhile isBlank)

end Owl.Text
