/-
Reading numbers.

Decimal digits of any script count, single underscores may stand between digits,
and blanks around the number are passed over.  An integer of more than
`digitLimit` digits is refused whatever follows it.
-/
import Owl.Number.Decimal
import Owl.Text.Blank
import Owl.Text.Numeral
import Owl.Text.Quoted

namespace Owl

/-- Why a text is not a number. -/
inductive NumeralFault
  | notAnInteger (text : String)
  | notANumber (text : String)
  | tooManyDigits (count : Nat)
deriving DecidableEq, Repr

namespace Numeral

def digitLimit : Nat := 4300

/-- The most characters of a refused integer that are shown. -/
def shownLimit : Nat := 200

/-- Whether a blank may stand around a number: the information separators may not. -/
def isMargin (c : Char) : Bool :=
  Text.isBlank c && !(28 ≤ c.toNat && c.toNat ≤ 31)

/-- Splits a sign off: whether it is a minus, and the rest. -/
def sign : List Char → Bool × List Char
  | '-' :: rest => (true, rest)
  | '+' :: rest => (false, rest)
  | rest => (false, rest)

/-- The value of digits read after `value`. -/
def value (digits : List Nat) : Nat :=
  digits.foldl (fun n d => 10 * n + d) 0

/-- A run of digits with single underscores between them: the digits and what follows.  `none` if
an underscore stands elsewhere. -/
def digitRun? : Bool → List Char → Option (List Nat × List Char)
  | afterDigit, [] => if afterDigit then some ([], []) else none
  | afterDigit, c :: rest =>
    match Text.decimalValue? c with
    | some d => (digitRun? true rest).map fun r => (d :: r.1, r.2)
    | none =>
      if c == '_' then if afterDigit then digitRun? false rest else none
      else if afterDigit then some ([], c :: rest) else none

def readInt (s : String) : Except NumeralFault Int :=
  let (negative, rest) := sign (s.toList.dropWhile isMargin)
  match digitRun? false rest with
  | none => .error (.notAnInteger s)
  | some (digits, rest) =>
    if digitLimit < digits.length then .error (.tooManyDigits digits.length)
    else if rest.all isMargin then
      .ok (if negative then -(value digits : Int) else value digits)
    else .error (.notAnInteger s)

/-- Whether two texts are the same but for the case of ASCII letters. -/
def sameLetters (cs : List Char) (word : String) : Bool :=
  cs.map Char.toLower == word.toList

/-- Digits that may be missing: none, or a run that starts with a digit. -/
def optionalRun? (cs : List Char) : Option (List Nat × List Char) :=
  match cs with
  | c :: _ => if (Text.decimalValue? c).isSome then digitRun? false cs else some ([], cs)
  | [] => some ([], [])

def exponent? : List Char → Option Int
  | [] => some 0
  | c :: rest =>
    if c == 'e' || c == 'E' then
      let (negative, rest) := sign rest
      match digitRun? false rest with
      | some (digits, []) => some (if negative then -(value digits : Int) else value digits)
      | _ => none
    else none

/-- An unsigned number: digits, a point with digits, an exponent. -/
def unsigned? (negative : Bool) (cs : List Char) : Option Binary64 := do
  let (whole, rest) ← optionalRun? cs
  let (places, rest) ← match rest with
    | '.' :: rest => optionalRun? rest
    | rest => some ([], rest)
  if whole.isEmpty && places.isEmpty then none
  let exponent ← exponent? rest
  return Binary64.ofDecimal negative (value (whole ++ places)) (exponent - places.length)

def readFloat (s : String) : Except NumeralFault Binary64 :=
  let inner := ((s.toList.dropWhile isMargin).reverse.dropWhile isMargin).reverse
  let (negative, rest) := sign inner
  if sameLetters rest "inf" || sameLetters rest "infinity" then .ok (.infinite negative)
  else if sameLetters rest "nan" then .ok .nan
  else match unsigned? negative rest with
    | some x => .ok x
    | none => .error (.notANumber s)

end Numeral

def NumeralFault.message : NumeralFault → String
  | notAnInteger s =>
    "invalid literal for int() with base 10: " ++
      String.ofList ((Text.quoted s).toList.take Numeral.shownLimit)
  | notANumber s => "could not convert string to float: " ++ Text.quoted s
  | tooManyDigits count =>
    "Exceeds the limit (" ++ toString Numeral.digitLimit ++
      " digits) for integer string conversion: value has " ++ toString count ++
      " digits; use sys.set_int_max_str_digits() to increase the limit"

end Owl
