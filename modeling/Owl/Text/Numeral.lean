/-
Characters that stand for numbers, in three classes of growing width.

* `decimalValue?` gives the value of a decimal digit of some script;
* `isDigit` also admits digits that take no part in place notation, such as
  superscripts and circled digits;
* `isNumeric` also admits fractions, letter-like numerals and ideographs.
-/
import Owl.Text.Ranges

namespace Owl.Text

/-- Code points beyond ASCII with a digit value, by gaps and runs. -/
def digitRanges : List (Nat × Nat) := rangesOf 128 [
  50,2,5,1,1446,10,134,10,198,10,412,10,118,10,118,10,118,10,118,10,118,10,118,10,118,10,118,10,118,
  10,96,10,118,10,70,10,278,10,70,10,719,9,1134,10,38,10,300,10,128,11,165,10,6,10,182,10,86,10,134,
  10,6,10,1046,1,3,6,6,10,982,9,11,9,11,9,89,1,10,9,1,1,630,9,1,9,1,9,32397,10,678,10,38,10,198,10,
  22,10,86,10,406,10,21270,10,1414,10,1430,4,748,10,294,9,489,9,11,10,128,10,60,10,144,10,278,10,
  342,10,118,10,374,10,102,10,102,10,422,10,102,10,758,10,246,10,70,10,19638,10,86,10,134,10,27764,
  50,2368,10,422,10,1622,10,1958,11,2789,10]

/-- Code points beyond ASCII with a numeric value, by gaps and runs. -/
def numericRanges : List (Nat × Nat) := rangesOf 128 [
  50,2,5,1,2,3,1441,10,134,10,198,10,412,10,118,10,4,6,108,10,118,10,118,10,2,6,110,13,115,10,8,7,
  103,10,104,7,7,19,109,10,96,10,118,10,70,20,268,10,70,10,719,20,881,3,239,10,6,10,22,10,300,10,
  128,11,165,10,6,10,182,10,86,10,134,10,6,10,1046,1,3,6,6,10,198,51,2,5,726,60,78,22,630,30,1385,1,
  777,1,25,9,14,3,343,4,138,10,30,8,1,15,32,10,39,15,325,1,125,1,934,1,802,1,4786,1,2,1,3,1,1,1,83,
  1,46,1,7,1,1,1,40,2,30,1,8,1,36,1,98,1,403,1,65,1,34,1,1,1,1,1,467,1,1,3,6,1,116,4,790,1,533,1,7,
  1,1408,1,131,2,12,3,1,1,1005,1,77,1,1157,1,1843,1,1167,1,743,1,2567,1,933,1,2177,1,4,1,124,1,2288,
  1,36,1,5,1,43,1,125,1,3881,10,188,10,320,6,154,10,38,10,198,10,22,10,86,10,406,10,19825,1,7,1,4,1,
  57,1,30,1,1,1,41,1,1298,10,493,45,12,57,17,2,341,27,36,4,29,1,8,1,134,5,202,10,942,8,25,7,39,9,75,
  5,22,6,160,2,2,16,2,46,64,9,52,2,30,3,75,5,104,8,24,8,41,7,330,6,48,10,294,31,158,10,42,4,112,7,
  134,30,128,10,60,10,144,10,7,20,251,10,342,10,118,10,374,10,102,10,102,12,420,19,93,10,758,29,227,
  10,70,10,534,21,1067,111,17905,10,86,10,134,10,1,7,798,23,25673,20,108,25,1109,50,2368,10,422,10,
  1485,9,128,10,791,59,1,3,1,4,76,45,1,15,962,13,2787,10,1031,1,98,1,125,1,62,1,2056,1,88,1,8,1,15,
  1,333,1,18,1,27,1,6262,1,1543,1,4482,1,10065,1,38434,1]

/-- The zeros of the decimal digit runs beyond ASCII, in rising order. -/
def decimalZeros : List Nat := [
  1632, 1776, 1984, 2406, 2534, 2662, 2790, 2918, 3046, 3174, 3302, 3430, 3558, 3664, 3792, 3872,
  4160, 4240, 6112, 6160, 6470, 6608, 6784, 6800, 6992, 7088, 7232, 7248, 42528, 43216, 43264,
  43472, 43504, 43600, 44016, 65296, 66720, 68912, 69734, 69872, 69942, 70096, 70384, 70736,
  70864, 71248, 71360, 71472, 71904, 72016, 72784, 73040, 73120, 92768, 92864, 93008, 120782,
  120792, 120802, 120812, 120822, 123200, 123632, 125264, 130032]

/-- Whether a character is a digit, superscripts and circled digits included. -/
def isDigit (c : Char) : Bool :=
  c.isDigit || (128 ≤ c.toNat && inRanges digitRanges c.toNat)

/-- Whether a character has a numeric value of any kind. -/
def isNumeric (c : Char) : Bool :=
  c.isDigit || (128 ≤ c.toNat && inRanges numericRanges c.toNat)

/-- The value of a decimal digit: ten code points follow each zero. -/
def decimalValue? (c : Char) : Option Nat :=
  if c.isDigit then some (c.toNat - 48)
  else if c.toNat < 128 then none
  else (decimalZeros.find? fun z => z ≤ c.toNat && c.toNat < z + 10).map (c.toNat - ·)

theorem isDigit_of_isDigit {c : Char} (h : c.isDigit) : isDigit c := by
  simp [isDigit, h]

theorem isNumeric_of_isDigit {c : Char} (h : c.isDigit) : isNumeric c := by
  simp [isNumeric, h]

end Owl.Text
