/-
Replacing whole words.

A word character is a letter, a numeral of any kind or the underscore.  An edge
lies between two places of which exactly one holds a word character, where the
ends of the text hold none.  `replaceWord` replaces, from left to right, each
occurrence of a text that has an edge on both sides.
-/
import Owl.Text.Letter
import Owl.Text.Numeral

namespace Owl.Text

/-- Whether a character is a letter or a numeral of any kind. -/
def isAlphanumeric (c : Char) : Bool :=
  isLetter c || isNumeric c

def isWordChar (c : Char) : Bool :=
  isAlphanumeric c || c == '_'

/-- Whether an edge lies between two neighbouring places. -/
def isEdge (before after : Option Char) : Bool :=
  before.any isWordChar != after.any isWordChar

/-- What follows `word` in `cs`, if `cs` starts with it and an edge lies at both of its ends. -/
def afterWord? (before : Option Char) (word cs : List Char) : Option (List Char) :=
  if word.isPrefixOf cs then
    let rest := cs.drop word.length
    let last := match word.getLast? with
      | some c => some c
      | none => before
    if isEdge before cs.head? && isEdge last rest.head? then some rest else none
  else none

/-- Replaces the words from a place on; `skip` counts the characters of a replaced word that are
still to be passed over. -/
def replaceWordFrom (word new : List Char) : Option Char → Nat → List Char → List Char
  | before, skip, [] =>
    if skip == 0 && (afterWord? before word []).isSome then new else []
  | _, skip + 1, c :: cs => replaceWordFrom word new (some c) skip cs
  | before, 0, c :: cs =>
    match afterWord? before word (c :: cs) with
    | none => c :: replaceWordFrom word new (some c) 0 cs
    | some _ =>
      match word.length with
      | 0 => new ++ c :: replaceWordFrom word new (some c) 0 cs
      | n + 1 => new ++ replaceWordFrom word new (some c) n cs

/-- Replaces every whole word `word` of a text by `new`. -/
def replaceWord (word new text : String) : String :=
  String.ofList (replaceWordFrom word.toList new.toList none 0 text.toList)

end Owl.Text
