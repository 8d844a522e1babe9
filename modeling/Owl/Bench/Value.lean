/-
Values that benchmarks return and take as settings.

`Value.shown` is the text of a value by itself, and `Value.written` the text inside
another one, where texts are quoted.
-/
import Owl.Cli.Path
import Owl.Number.Exact
import Owl.Text.Quoted

namespace Owl.Bench

/-- A value. -/
inductive Value
  | none
  | bool (b : Bool)
  | int (i : Int)
  | float (x : Binary64)
  | complex (re im : Binary64)
  | text (s : String)
  | bytes (mutable : Bool) (bs : List UInt8)
  | list (xs : List Value)
  | tuple (xs : List Value)
  | set (frozen : Bool) (xs : List Value)
  | dict (entries : List (Value × Value))
  | record (name : String) (fields : List (String × Value))
  /-- A value without parts, by the name of its kind and its two texts. -/
  | scalar (kind written shown : String)
  /-- An object of no further kind. -/
  | object
deriving Repr, Inhabited

namespace Value

def kind : Value → String
  | none => "NoneType"
  | bool _ => "bool"
  | int _ => "int"
  | float _ => "float"
  | complex _ _ => "complex"
  | text _ => "str"
  | bytes mutable _ => if mutable then "bytearray" else "bytes"
  | list _ => "list"
  | tuple _ => "tuple"
  | set frozen _ => if frozen then "frozenset" else "set"
  | dict _ => "dict"
  | record name _ => name
  | scalar kind _ _ => kind
  | object => "object"

/-! ### Text -/

/-- The quote of some bytes: the single one, unless they hold it and no double one. -/
def bytesQuote (bs : List UInt8) : Char :=
  if bs.contains 39 && !bs.contains 34 then '"' else '\x27'

def escapeByte (quote : Char) (b : UInt8) : List Char :=
  let c := Char.ofNat b.toNat
  if c == quote || c == '\\' then ['\\', c]
  else if c == '\n' then ['\\', 'n']
  else if c == '\r' then ['\\', 'r']
  else if c == '\t' then ['\\', 't']
  else if ' ' ≤ c && c ≤ '~' then [c]
  else '\\' :: 'x' :: Text.hex 2 b.toNat

def quotedBytes (bs : List UInt8) : String :=
  let quote := bytesQuote bs
  "b" ++ String.ofList (quote :: bs.flatMap (escapeByte quote) ++ [quote])

/-- A part of a complex number: a fraction of zero is left out. -/
def partText (x : Binary64) : String :=
  let s := x.text
  if s.endsWith ".0" then (s.dropEnd 2).toString else s

def complexText (re im : Binary64) : String :=
  let imText := partText im ++ "j"
  if re.isZero && !re.isNegative then imText
  else
    let sign := if im.isNegative then "" else "+"
    "(" ++ partText re ++ sign ++ imText ++ ")"

def bracketed (opening closing : String) (items : List String) : String :=
  opening ++ ", ".intercalate items ++ closing

/-- Items of a tuple: a comma follows a single one. -/
def tupleText : List String → String
  | [s] => "(" ++ s ++ ",)"
  | items => bracketed "(" ")" items

/-- Items of a set: an empty one is written by its name. -/
def setText (frozen : Bool) (items : List String) : String :=
  let inner := bracketed "\x7b" "\x7d" items
  match frozen, items with
  | true, [] => "frozenset()"
  | false, [] => "set()"
  | true, _ => "frozenset(" ++ inner ++ ")"
  | false, _ => inner

mutual

def written : Value → String
  | none => "None"
  | bool b => if b then "True" else "False"
  | int i => toString i
  | float x => x.text
  | complex re im => complexText re im
  | text s => Text.quoted s
  | bytes mutable bs =>
    if mutable then "bytearray(" ++ quotedBytes bs ++ ")" else quotedBytes bs
  | list xs => bracketed "[" "]" (writtenAll xs)
  | tuple xs => tupleText (writtenAll xs)
  | set frozen xs => setText frozen (writtenAll xs)
  | dict entries => bracketed "\x7b" "\x7d" (writtenEntries entries)
  | record name fields => name ++ bracketed "(" ")" (writtenFields fields)
  | scalar _ written _ => written
  | object => "<object object>"

def writtenAll : List Value → List String
  | [] => []
  | x :: xs => x.written :: writtenAll xs

def writtenEntries : List (Value × Value) → List String
  | [] => []
  | (key, x) :: entries => (key.written ++ ": " ++ x.written) :: writtenEntries entries

def writtenFields : List (String × Value) → List String
  | [] => []
  | (name, x) :: fields => (name ++ "=" ++ x.written) :: writtenFields fields

end

def shown : Value → String
  | text s => s
  | scalar _ _ shown => shown
  | x => x.written

/-! ### Keys -/

mutual

/-- Whether two values are one key.  A truth value counts as a number, and kinds of numbers are not
told apart. -/
def sameKey : Value → Value → Bool
  | none, none => true
  | text s, text t => s == t
  | bytes _ bs, bytes _ cs => bs == cs
  | tuple xs, tuple ys => sameKeys xs ys
  | scalar k s _, scalar l t _ => k == l && s == t
  | x, y =>
    match number? x, number? y with
    | some a, some b => a == b
    | _, _ => false
where
  /-- A number as a quotient with a sign. -/
  number? : Value → Option (Bool × Nat × Nat)
    | bool b => some (false, b.toNat, 1)
    | int i => some (i < 0, i.natAbs, 1)
    | float x@(.finite negative _ _) =>
      let (n, d) := x.quotient
      let g := Nat.gcd n d
      some (negative && n != 0, n / g, d / g)
    | _ => Option.none

/-- Whether some values are the same keys, one by one. -/
def sameKeys : List Value → List Value → Bool
  | [], [] => true
  | x :: xs, y :: ys => x.sameKey y && sameKeys xs ys
  | _, _ => false

end

/-- Puts an entry into a dictionary: a key that is there keeps its place. -/
def insertEntry : List (Value × Value) → Value × Value → List (Value × Value)
  | [], entry => [entry]
  | (key, x) :: rest, entry =>
    if key.sameKey entry.1 then (key, entry.2) :: rest else (key, x) :: insertEntry rest entry

/-- The dictionary of some entries; of one key the last value counts. -/
def ofEntries (entries : List (Value × Value)) : Value := dict (entries.foldl insertEntry [])

def ofElements (frozen : Bool) (xs : List Value) : Value :=
  set frozen (xs.foldl (fun seen x => if seen.any (·.sameKey x) then seen else seen ++ [x]) [])

/-! ### Values without parts -/

/-- A fraction in lowest terms, with a positive denominator. -/
def fraction (num den : Int) : Value :=
  let g := Int.gcd num den
  let sign : Int := if den < 0 then -1 else 1
  let n := sign * num / (g : Int)
  let d := sign * den / (g : Int)
  scalar "Fraction" ("Fraction(" ++ toString n ++ ", " ++ toString d ++ ")")
    (if d == 1 then toString n else toString n ++ "/" ++ toString d)

/-- A number with zeros in front, up to `width` digits. -/
def zeroFilled (width n : Nat) : String :=
  String.ofList (List.replicate (width - (decimalDigits n).length) '0' ++ decimalDigits n)

def date (year month day : Nat) : Value :=
  scalar "date"
    ("datetime.date(" ++ ", ".intercalate ([year, month, day].map toString) ++ ")")
    (zeroFilled 4 year ++ "-" ++ zeroFilled 2 month ++ "-" ++ zeroFilled 2 day)

def decimal (x : ExactDecimal) : Value :=
  scalar "Decimal" ("Decimal(\x27" ++ x.text ++ "\x27)") x.text

def path (s : String) : Value :=
  let p := (Cli.Path.ofText s).text
  scalar "PurePosixPath" ("PurePosixPath(" ++ Text.quoted p ++ ")") p

end Value

end Owl.Bench
