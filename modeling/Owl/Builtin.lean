/-
Names that every program knows: functions and value constructors.

A function's `template` says how a call of it is written: text, with the places
of the arguments between.
-/
import Owl.Ty

namespace Owl

/-- A piece of a template. -/
inductive Piece
  | text (s : String)
  | arg (index : Nat)
deriving DecidableEq, Repr

namespace Piece

/-- A piece as shown: an argument's place is its number in braces. -/
def shown : Piece → String
  | text s => s
  | arg index => "\x7b" ++ toString index ++ "\x7d"

/-- Fills a template.  The error is the first place without an argument. -/
def fill (args : List String) : List Piece → Except Nat String
  | [] => .ok ""
  | text s :: rest => do return s ++ (← fill args rest)
  | arg index :: rest =>
    match args[index]? with
    | some a => do return a ++ (← fill args rest)
    | none => .error index

theorem fill_text (args : List String) (s : String) (rest : List Piece) :
    fill args (text s :: rest) = (fill args rest).map (s ++ ·) := by
  rw [fill]
  cases fill args rest <;> rfl

theorem fill_arg {args : List String} {index : Nat} {a : String} (h : args[index]? = some a)
    (rest : List Piece) : fill args (arg index :: rest) = (fill args rest).map (a ++ ·) := by
  rw [fill, h]
  cases fill args rest <;> rfl

end Piece

/-- A function that every program knows. -/
structure Builtin where
  name : String
  params : List Ty
  returns : Ty
  template : List Piece
  doc : String
  /-- Whether the type of a call depends on the types of its arguments. -/
  isGeneric : Bool := false
deriving DecidableEq, Repr

namespace Builtin

/-- The functions that every program knows. -/
def all : List Builtin := [
  { name := "print", params := [.any], returns := .void
    template := [.text "print(", .arg 0, .text ")"]
    doc := "Print a value to stdout." },
  { name := "len", params := [.list .any], returns := .int
    template := [.text "len(", .arg 0, .text ")"]
    doc := "Return the length of a list." },
  { name := "is_empty", params := [.list .any], returns := .bool
    template := [.text "len(", .arg 0, .text ") == 0"]
    doc := "Return True if the list is empty." },
  { name := "get", params := [.list .any, .int], returns := .any
    template := [.arg 0, .text "[", .arg 1, .text "]"]
    doc := "Get element at index from list."
    isGeneric := true },
  { name := "push", params := [.list .any, .any], returns := .list .any
    template := [.arg 0, .text " + [", .arg 1, .text "]"]
    doc := "Return a new list with element appended."
    isGeneric := true },
  { name := "range", params := [.int, .int], returns := .list .int
    template := [.text "range(", .arg 0, .text ", ", .arg 1, .text ")"]
    doc := "Create a range from start to end (exclusive)." }]

def find? (name : String) : Option Builtin :=
  all.find? (·.name == name)

def templateText (b : Builtin) : String :=
  String.join (b.template.map Piece.shown)

end Builtin

/-- A constructor of optional values or results. -/
structure ValueConstructor where
  name : String
  paramCount : Nat
  creates : String
  doc : String
deriving DecidableEq, Repr

namespace ValueConstructor

def all : List ValueConstructor := [
  ⟨"Some", 1, "Option", "Create an Option containing a value."⟩,
  ⟨"None", 0, "Option", "Create an empty Option."⟩,
  ⟨"Ok", 1, "Result", "Create a successful Result."⟩,
  ⟨"Err", 1, "Result", "Create an error Result."⟩]

def find? (name : String) : Option ValueConstructor :=
  all.find? (·.name == name)

end ValueConstructor

end Owl
