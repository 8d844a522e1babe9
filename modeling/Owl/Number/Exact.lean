/-
Decimals that keep their places.

`1.10` and `1.1` are two decimals.  A decimal is written positionally while its
exponent is at most zero and no more than five zeros follow the point, and with an
exponent otherwise.
-/
import Owl.Number.Reading

namespace Owl

/-- A decimal that keeps its places. -/
inductive ExactDecimal
  /-- The number `digits · 10 ^ exponent`. -/
  | finite (negative : Bool) (digits : Nat) (exponent : Int)
  | infinite (negative : Bool)
  /-- No number; `signals` tells the two kinds apart, and the digits are kept. -/
  | nan (negative signals : Bool) (digits : List Char)
deriving DecidableEq, Repr

namespace ExactDecimal

/-- The decimal digits at the start of a text, and the rest. -/
def digitsOf : List Char → List Nat × List Char
  | [] => ([], [])
  | c :: cs =>
    match Text.decimalValue? c with
    | some d => let r := digitsOf cs; (d :: r.1, r.2)
    | none => ([], c :: cs)

/-- An exponent at the end of a text; an empty text stands for none. -/
def exponentOf? : List Char → Option Int
  | [] => some 0
  | e :: cs =>
    if e != 'e' && e != 'E' then none
    else
      let (negative, cs) := Numeral.sign cs
      match digitsOf cs with
      | ([], _) => none
      | (digits, []) =>
        let n : Int := Numeral.value digits
        some (if negative then -n else n)
      | _ => none

def finiteOf? (negative : Bool) (cs : List Char) : Option ExactDecimal :=
  let (whole, rest) := digitsOf cs
  let (places, rest) := match rest with
    | '.' :: rest => digitsOf rest
    | rest => ([], rest)
  if whole.isEmpty && places.isEmpty then none
  else (exponentOf? rest).map fun e =>
    finite negative (Numeral.value (whole ++ places)) (e - places.length)

def payload? (negative signals : Bool) (cs : List Char) : Option ExactDecimal :=
  match digitsOf cs with
  | (digits, []) =>
    let n := Numeral.value digits
    some (nan negative signals (if n == 0 then [] else decimalDigits n))
  | _ => none

def ofText? (s : String) : Option ExactDecimal :=
  let trimmed := ((s.toList.dropWhile Text.isBlank).reverse.dropWhile Text.isBlank).reverse
  let (negative, cs) := Numeral.sign (trimmed.filter (· != '_'))
  match finiteOf? negative cs with
  | some x => some x
  | none =>
    match cs.map Char.toLower with
    | ['i', 'n', 'f'] => some (infinite negative)
    | ['i', 'n', 'f', 'i', 'n', 'i', 't', 'y'] => some (infinite negative)
    | 'n' :: 'a' :: 'n' :: rest => payload? negative false rest
    | 's' :: 'n' :: 'a' :: 'n' :: rest => payload? negative true rest
    | _ => none

/-- The digits with a point after the first `point` of them; a whole number gets none. -/
def placed (digits : List Char) (point : Int) : List Char :=
  if point ≤ 0 then '0' :: '.' :: (List.replicate point.natAbs '0' ++ digits)
  else if digits.length ≤ point.toNat then
    digits ++ List.replicate (point.toNat - digits.length) '0'
  else digits.take point.toNat ++ '.' :: digits.drop point.toNat

def text : ExactDecimal → String
  | infinite negative => Binary64.signed negative "Infinity"
  | nan negative signals digits =>
    Binary64.signed negative ((if signals then "sNaN" else "NaN") ++ String.ofList digits)
  | finite negative n exponent =>
    let digits := decimalDigits n
    let left : Int := exponent + digits.length
    Binary64.signed negative <|
      if exponent ≤ 0 && -6 < left then String.ofList (placed digits left)
      else
        let e := left - 1
        String.ofList (placed digits 1) ++
          (if e == 0 then ""
            else "E" ++ (if e < 0 then "-" else "+") ++ toString e.natAbs)

end ExactDecimal

end Owl
