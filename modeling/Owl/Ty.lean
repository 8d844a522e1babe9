/-
Types of values.

A plain type is known by its name; `Any` stands for values from outside and
`Unknown` for what could not be judged.  Two relations are at work:

* `Ty.agree` is equality in which `Any` fits everything inside `Option`, `List`
  and `Result`, but not by itself;
* `Ty.compatible` lets `Any` and `Unknown` by themselves fit everything, and is
  `agree` otherwise.
-/
import Owl.Tree.Dump

namespace Owl

/-- A type. -/
inductive Ty
  | plain (name : String)
  | option (inner : Ty)
  | list (element : Ty)
  | result (ok err : Ty)
deriving DecidableEq, Repr, Inhabited

namespace Ty

def int : Ty := plain "Int"

def float : Ty := plain "Float"

def string : Ty := plain "String"

def bool : Ty := plain "Bool"

def void : Ty := plain "Void"

def unknown : Ty := plain "Unknown"

def any : Ty := plain "Any"

def text : Ty → String
  | plain name => name
  | option inner => "Option[" ++ inner.text ++ "]"
  | list element => "List[" ++ element.text ++ "]"
  | result ok err => "Result[" ++ ok.text ++ ", " ++ err.text ++ "]"

/-- Equality up to `Any` inside a type. -/
def agree : Ty → Ty → Bool
  | plain a, plain b => a == b
  | option a, option b => a == any || b == any || agree a b
  | list a, list b => a == any || b == any || agree a b
  | result a e, result b f =>
    (a == any || b == any || agree a b) && (e == any || f == any || agree e f)
  | _, _ => false

/-- Whether a value of one type may stand where the other is asked for. -/
def compatible (a b : Ty) : Bool :=
  a == any || b == any || a == unknown || b == unknown || agree a b

def isNumber (t : Ty) : Bool := t == int || t == float

/-- The plain types that can be written, by name and by short name. -/
def primitive? : String → Option Ty
  | "Int" | "int" => some int
  | "Float" | "float" => some float
  | "String" | "str" => some string
  | "Bool" | "bool" => some bool
  | "Void" | "void" => some void
  | _ => none

def arity? : String → Option Nat
  | "Option" => some 1
  | "Result" => some 2
  | "List" => some 1
  | _ => none

/-- A type with parameters, if their number is right. -/
def withParams? : String → List Ty → Option Ty
  | "Option", [t] => some (option t)
  | "List", [t] => some (list t)
  | "Result", [t, e] => some (result t e)
  | _, _ => none

def dump : Ty → Dump
  | plain name => .record "OwlType" [("name", .text name)]
  | t@(option inner) => .record "OptionType" [("name", .text t.text), ("inner", inner.dump)]
  | t@(list element) => .record "ListType" [("name", .text t.text), ("element_type", element.dump)]
  | t@(result ok err) =>
    .record "ResultType" [("name", .text t.text), ("ok_type", ok.dump), ("err_type", err.dump)]

end Ty

end Owl
