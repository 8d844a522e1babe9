/-
Decimal text of binary floating-point numbers.

* `Binary64.shortest` finds the fewest digits that read back as the number, and of
  several such decimals the nearest;
* `Binary64.text` writes them: positionally from `1e-4` up to `1e16`, with at least
  one place, and in exponent form outside;
* `Binary64.fixed` writes a given number of places, a half going to the even
  digit.
-/
import Owl.Number.Binary64

namespace Owl

def decimalDigits (n : Nat) : List Char := Nat.toDigits 10 n

/-- `s` with blanks in front, up to `width` characters. -/
def padLeft (width : Nat) (s : String) : String :=
  String.ofList (List.replicate (width - s.length) ' ') ++ s

/-- `s` with blanks behind, up to `width` characters. -/
def padRight (width : Nat) (s : String) : String :=
  s ++ String.ofList (List.replicate (width - s.length) ' ')

namespace Binary64

/-- `num / den` in units of `10 ^ k`, as a quotient. -/
def inUnits (num den : Nat) (k : Int) : Nat × Nat :=
  if k < 0 then (num * Nat.pow 10 k.natAbs, den) else (num, den * Nat.pow 10 k.natAbs)

/-- The place of the first digit of `num / den`: the `k` with `10 ^ k ≤ num / den < 10 ^ (k + 1)`. -/
def leadingPlace (num den : Nat) : Int :=
  let guess : Int := ((decimalDigits num).length : Int) - (decimalDigits den).length
  let (n, d) := inUnits num den guess
  if n < d then guess - 1 else guess

/-- The decimals of a unit `10 ^ k` that lie in the interval around a number, nearest first.  The
number and the ends of the interval are quotients over `den`. -/
def candidate? (low value high den : Nat) (ends : Bool) (k : Int) : Option Nat :=
  let (n, d) := inUnits value den k
  let inside (c : Nat) : Bool :=
    let (l, dl) := inUnits low den k
    let (h, dh) := inUnits high den k
    if ends then l ≤ c * dl && c * dh ≤ h else l < c * dl && c * dh < h
  let floor := n / d
  let twice := 2 * (n % d)
  let (near, far) :=
    if d < twice || (twice == d && floor % 2 == 1) then (floor + 1, floor) else (floor, floor + 1)
  if inside near then some near
  else if inside far then some far
  else none

/-- Tries units from `10 ^ k` downwards. -/
def shortestFrom (low value high den : Nat) (ends : Bool) : Nat → Int → Nat × Int
  | 0, k => ((roundQuotient (inUnits value den k).1 (inUnits value den k).2), k)
  | fuel + 1, k =>
    match candidate? low value high den ends k with
    | some c => (c, k)
    | none => shortestFrom low value high den ends fuel (k - 1)

/-- The shortest decimal `digits · 10 ^ k` that reads back as `mantissa · 2 ^ exponent`. -/
def shortest (mantissa : Nat) (exponent : Int) : Nat × Int :=
  let (four, den) := (finite false (4 * mantissa) (exponent - 2)).quotient
  let unit := four / (4 * mantissa)
  let low := if mantissa == Nat.pow 2 52 && exponent != -1074 then four - unit else four - 2 * unit
  let high := four + 2 * unit
  shortestFrom low four high den (mantissa % 2 == 0) 17 (leadingPlace four den)

def dropZeros : Nat → Nat × Int → Nat × Int
  | 0, d => d
  | fuel + 1, (n, k) => if n % 10 == 0 && n != 0 then dropZeros fuel (n / 10, k + 1) else (n, k)

def signed (negative : Bool) (s : String) : String :=
  if negative then "-" ++ s else s

/-- Digits with the point after the first `point` of them, filled with zeros. -/
def positional (digits : List Char) (point : Int) : String :=
  if point ≤ 0 then
    "0." ++ String.ofList (List.replicate point.natAbs '0' ++ digits)
  else
    let n := point.toNat
    let whole := digits.take n ++ List.replicate (n - digits.length) '0'
    let places := digits.drop n
    String.ofList whole ++ "." ++ String.ofList (if places.isEmpty then ['0'] else places)

/-- Digits in exponent form: the exponent has a sign and at least two digits. -/
def scientific (digits : List Char) (exponent : Int) : String :=
  let first := String.ofList (digits.take 1)
  let rest := digits.drop 1
  let mantissa := if rest.isEmpty then first else first ++ "." ++ String.ofList rest
  let size := decimalDigits exponent.natAbs
  let size := if size.length < 2 then '0' :: size else size
  mantissa ++ "e" ++ (if exponent < 0 then "-" else "+") ++ String.ofList size

def text : Binary64 → String
  | nan => "nan"
  | infinite negative => signed negative "inf"
  | finite negative m e =>
    if m == 0 then signed negative "0.0"
    else
      let (n, k) := dropZeros 400 (shortest m e)
      let digits := decimalDigits n
      let exponent : Int := k + digits.length - 1
      signed negative <|
        if -4 ≤ exponent && exponent < 16 then positional digits (exponent + 1)
        else scientific digits exponent

/-- A whole number of units `10 ^ (-places)` with its point. -/
def withPlaces (places n : Nat) : String :=
  let digits := decimalDigits n
  let digits := List.replicate (places + 1 - digits.length) '0' ++ digits
  let whole := String.ofList (digits.take (digits.length - places))
  if places == 0 then whole
  else whole ++ "." ++ String.ofList (digits.drop (digits.length - places))

/-- The number in units of `10 ^ (-places)`, a half going to the even one. -/
def units (places : Nat) (x : Binary64) : Nat :=
  roundQuotient (x.quotient.1 * Nat.pow 10 places) x.quotient.2

def fixed (places : Nat) : Binary64 → String
  | nan => "nan"
  | infinite negative => signed negative "inf"
  | x@(finite negative _ _) => signed negative (withPlaces places (x.units places))

/-- The number nearest to the decimal with a fixed number of places. -/
def rounded (places : Nat) : Binary64 → Binary64
  | x@(finite negative _ _) => ofQuotient negative (x.units places) (Nat.pow 10 places)
  | x => x

/-- The number nearest to the decimal with a given count of digits in all. -/
def significant (count : Nat) : Binary64 → Binary64
  | x@(finite negative m _) =>
    if m == 0 then x
    else
      let (num, den) := x.quotient
      let unit := leadingPlace num den - ((count : Int) - 1)
      let (n, d) := inUnits num den unit
      ofDecimal negative (roundQuotient n d) unit
  | x => x

end Binary64

end Owl
