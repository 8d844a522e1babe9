/-
Binary floating-point numbers of 64 bits, as exact values.

A finite number is `mantissa · 2 ^ exponent` with a mantissa below `2 ^ 53` and
an exponent of at least `-1074`; the mantissa is at least `2 ^ 52` unless the
exponent is least.  Every operation forms its exact result as a quotient and
rounds it once, by `ofQuotient`, to the nearest number, a half going to the even
mantissa.

Design notes: powers are written with `Nat.pow`, since which instance `^` stands for
depends on what else is imported.
-/

namespace Owl

/-- The quotient of two numbers, to the nearest; a half goes to the even neighbour. -/
def roundQuotient (num den : Nat) : Nat :=
  let q := num / den
  let twice := 2 * (num % den)
  if den < twice || (twice == den && q % 2 == 1) then q + 1 else q

/-- A binary floating-point number of 64 bits. -/
inductive Binary64
  | nan
  | infinite (negative : Bool)
  | finite (negative : Bool) (mantissa : Nat) (exponent : Int)
deriving DecidableEq, Repr, Inhabited

namespace Binary64

def zero (negative : Bool) : Binary64 := finite negative 0 (-1074)

/-- `num · 2 ^ (-e)` over `den`, without a fraction in either part. -/
def scaled (num den : Nat) (e : Int) : Nat × Nat :=
  if e < 0 then (num * Nat.pow 2 e.natAbs, den) else (num, den * Nat.pow 2 e.natAbs)

/-- The number nearest to `num / den`. -/
def ofQuotient (negative : Bool) (num den : Nat) : Binary64 :=
  if num == 0 then zero negative
  else
    let guess : Int := (Nat.log2 num : Int) - (Nat.log2 den : Int) - 52
    let (n, d) := scaled num den guess
    let e := max (-1074) (if n < Nat.pow 2 52 * d then guess - 1 else guess)
    let (n, d) := scaled num den e
    let m := roundQuotient n d
    let (m, e) := if m == Nat.pow 2 53 then (Nat.pow 2 52, e + 1) else (m, e)
    if 971 < e then infinite negative else finite negative m e

/-- The number nearest to a decimal `digits · 10 ^ exponent`. -/
def ofDecimal (negative : Bool) (digits : Nat) (exponent : Int) : Binary64 :=
  let size : Int := (Nat.toDigits 10 digits).length
  if digits == 0 then zero negative
  else if 400 < size + exponent then infinite negative
  else if size + exponent < -400 then zero negative
  else if exponent < 0 then ofQuotient negative digits (Nat.pow 10 exponent.natAbs)
  else ofQuotient negative (digits * Nat.pow 10 exponent.natAbs) 1

def ofInt (i : Int) : Binary64 := ofQuotient (i < 0) i.natAbs 1

/-- The size of a finite number as a quotient; 0 for any other. -/
def quotient : Binary64 → Nat × Nat
  | finite _ m e => if e < 0 then (m, Nat.pow 2 e.natAbs) else (m * Nat.pow 2 e.natAbs, 1)
  | _ => (0, 1)

def isNegative : Binary64 → Bool
  | nan => false
  | infinite negative => negative
  | finite negative _ _ => negative

def isZero : Binary64 → Bool
  | finite _ m _ => m == 0
  | _ => false

def neg : Binary64 → Binary64
  | nan => nan
  | infinite negative => infinite (!negative)
  | finite negative m e => finite (!negative) m e

/-- The sum, rounded once.  A sum of opposite numbers is a positive zero. -/
def add : Binary64 → Binary64 → Binary64
  | nan, _ => nan
  | _, nan => nan
  | infinite a, infinite b => if a == b then infinite a else nan
  | infinite a, _ => infinite a
  | _, infinite b => infinite b
  | x, y =>
    let (a, b) := x.quotient
    let (c, d) := y.quotient
    let p : Int := a * d
    let q : Int := c * b
    let sum := (if x.isNegative then -p else p) + (if y.isNegative then -q else q)
    if sum == 0 then zero (x.isNegative && y.isNegative)
    else ofQuotient (sum < 0) sum.natAbs (b * d)

/-- The difference, rounded once. -/
def sub (x y : Binary64) : Binary64 := x.add y.neg

/-- The product, rounded once. -/
def mul (x y : Binary64) : Binary64 :=
  let sign := x.isNegative != y.isNegative
  match x, y with
  | nan, _ => nan
  | _, nan => nan
  | infinite _, z => if z.isZero then nan else infinite sign
  | z, infinite _ => if z.isZero then nan else infinite sign
  | _, _ => ofQuotient sign (x.quotient.1 * y.quotient.1) (x.quotient.2 * y.quotient.2)

/-- The quotient, rounded once; `none` if the divisor is zero. -/
def div? (x y : Binary64) : Option Binary64 :=
  let sign := x.isNegative != y.isNegative
  if y.isZero then none
  else some <| match x, y with
    | nan, _ => nan
    | _, nan => nan
    | infinite _, infinite _ => nan
    | infinite _, _ => infinite sign
    | _, infinite _ => zero sign
    | _, _ => ofQuotient sign (x.quotient.1 * y.quotient.2) (x.quotient.2 * y.quotient.1)

def lt : Binary64 → Binary64 → Bool
  | nan, _ => false
  | _, nan => false
  | infinite a, infinite b => a && !b
  | infinite a, _ => a
  | _, infinite b => !b
  | x, y =>
    let (a, b) := x.quotient
    let (c, d) := y.quotient
    let p : Int := a * d
    let q : Int := c * b
    (if x.isNegative then -p else p) < (if y.isNegative then -q else q)

end Binary64

end Owl
