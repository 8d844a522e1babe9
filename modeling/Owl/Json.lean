/-
JSON texts.

Only the characters from the blank to the tilde stand for themselves; any other is
written by its number, above the basic plane as a pair of surrogates.
-/
import Owl.Number.Decimal
import Owl.Text.Quoted

namespace Owl

/-- A JSON value. -/
inductive Json
  | null
  | bool (b : Bool)
  | int (i : Int)
  | float (x : Binary64)
  | text (s : String)
  | list (xs : List Json)
  | object (fields : List (String × Json))
deriving Repr, Inhabited

namespace Json

def unit (n : Nat) : List Char := '\\' :: 'u' :: Text.hex 4 n

def escape (c : Char) : List Char :=
  if c == '"' then ['\\', '"']
  else if c == '\\' then ['\\', '\\']
  else if c == '\n' then ['\\', 'n']
  else if c == '\r' then ['\\', 'r']
  else if c == '\t' then ['\\', 't']
  else if c.toNat == 8 then ['\\', 'b']
  else if c.toNat == 12 then ['\\', 'f']
  else if ' ' ≤ c && c ≤ '~' then [c]
  else if c.toNat < 0x10000 then unit c.toNat
  else
    let offset := c.toNat - 0x10000
    unit (0xD800 + offset / 1024) ++ unit (0xDC00 + offset % 1024)

def quote (s : String) : String :=
  "\"" ++ String.ofList (s.toList.flatMap escape) ++ "\""

def floatText : Binary64 → String
  | .nan => "NaN"
  | .infinite negative => Binary64.signed negative "Infinity"
  | x => x.text

/-- The spacing of a value: on one line, or over several, where each level is two blanks deeper. -/
inductive Spacing
  | line
  | block (depth : Nat)
deriving DecidableEq, Repr

namespace Spacing

def inner : Spacing → Spacing
  | line => line
  | block depth => block (depth + 1)

def lineBreak : Spacing → String
  | line => ""
  | block depth => "\n" ++ String.ofList (List.replicate (2 * depth) ' ')

def comma : Spacing → String
  | line => ", "
  | block depth => "," ++ lineBreak (block depth)

def wrap (s : Spacing) (opening closing : String) (items : List String) : String :=
  if items.isEmpty then opening ++ closing
  else
    opening ++ s.inner.lineBreak ++ s.inner.comma.intercalate items ++ s.lineBreak ++ closing

end Spacing

mutual

def render (s : Spacing) : Json → String
  | null => "null"
  | bool b => if b then "true" else "false"
  | int i => toString i
  | float x => floatText x
  | text t => quote t
  | list xs => s.wrap "[" "]" (renderAll s.inner xs)
  | object fields => s.wrap "\x7b" "\x7d" (renderFields s.inner fields)

def renderAll (s : Spacing) : List Json → List String
  | [] => []
  | x :: xs => x.render s :: renderAll s xs

def renderFields (s : Spacing) : List (String × Json) → List String
  | [] => []
  | (key, x) :: fields => (quote key ++ ": " ++ x.render s) :: renderFields s fields

end

def compact (j : Json) : String := j.render .line

def pretty (j : Json) : String := j.render (.block 0)

/-! ### Parts -/

/-- The fields of an object; none of any other value. -/
def fields : Json → List (String × Json)
  | object fields => fields
  | _ => []

/-- The items of a list; none of any other value. -/
def items : Json → List Json
  | list xs => xs
  | _ => []

def field? (j : Json) (key : String) : Option Json := j.fields.lookup key

def fieldsAt (j : Json) (key : String) : List (String × Json) := ((j.field? key).map fields).getD []

def itemsAt (j : Json) (key : String) : List Json := ((j.field? key).map items).getD []

def number? : Json → Option Binary64
  | int i => some (.ofInt i)
  | float x => some x
  | _ => none

/-- The difference of two numbers: an integer if both are, and zero if one is no number. -/
def difference : Json → Json → Json
  | int i, int j => int (i - j)
  | x, y =>
    match number? x, number? y with
    | some a, some b => float (a.sub b)
    | _, _ => float (.zero false)

def text? : Json → Option String
  | text s => some s
  | _ => none

/-- A number of either kind; zero for any other value. -/
def number (j : Json) : Binary64 := j.number?.getD (.zero false)

/-- The number under a key; zero if there is none. -/
def numberAt (j : Json) (key : String) : Binary64 := ((j.field? key).map number).getD (.zero false)

/-- The integer under a key; zero if there is none. -/
def intAt (j : Json) (key : String) : Int :=
  match j.field? key with
  | some (int i) => i
  | _ => 0

end Json

end Owl
