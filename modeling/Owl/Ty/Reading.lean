/-
Reading types from text.

`Ty.ofText` reads a type as `Ty.text` writes it, with blanks around every part.
What it cannot read is `Unknown`; it never fails.
-/
import Owl.Text.Blank
import Owl.Ty

namespace Owl.Ty

/-- What stands between a type's name with its opening bracket and the closing bracket at the end. -/
def between? (opening : String) (cs : List Char) : Option (List Char) :=
  if opening.toList.isPrefixOf cs && cs.getLast? == some ']' then
    some ((cs.drop opening.length).dropLast)
  else none

/-- Splits at the first comma that stands outside of brackets, counted from `depth`. -/
def splitComma? (depth : Int) : List Char → Option (List Char × List Char)
  | [] => none
  | c :: cs =>
    if c == ',' && depth == 0 then some ([], cs)
    else
      let depth := if c == '[' then depth + 1 else if c == ']' then depth - 1 else depth
      (splitComma? depth cs).map fun (a, b) => (c :: a, b)

/-- Reads a type that is nested at most `bound` deep. -/
def ofChars : Nat → List Char → Ty
  | 0, _ => unknown
  | bound + 1, cs =>
    let cs := Text.trim cs
    match primitive? (String.ofList cs) with
    | some t => t
    | none =>
      if cs == "Any".toList then any
      else match between? "Option[" cs with
        | some inner => option (ofChars bound inner)
        | none =>
          match between? "List[" cs with
          | some inner => list (ofChars bound inner)
          | none =>
            match between? "Result[" cs with
            | some inner =>
              match splitComma? 0 inner with
              | some (ok, err) => result (ofChars bound ok) (ofChars bound err)
              | none => unknown
            | none => unknown

/-- Reads a type.  Each nested type is shorter than the one around it, so the length of the text
bounds the nesting. -/
def ofText (s : String) : Ty :=
  ofChars (s.length + 1) s.toList

end Owl.Ty
