/-
The problems a check can find, and their wording.

A `Problem` makes a program unacceptable, a `Concern` does not.  Each has one code,
one message, and notes and hints that depend on its parameters only.
-/
import Owl.Diagnostic

namespace Owl

/-- A cause of rejection. -/
inductive Problem
  | typeMismatch (expected found : String) (hint? : Option String)
  | undefinedVariable (name : String)
  | undefinedFunction (name : String)
  | invalidOperation (op left right : String)
  | incomparable (left right op : String)
  | returnMismatch (expected found : String)
  | branchMismatch (thenType elseType : String)
  | wrongArgCount (fn : String) (expected found : Int)
  | conditionNotBool (found : String)
  | cannotNegate (type : String)
  | tryNotResult (found : String)
  | tryOutsideResult
  | tryErrorMismatch (operandErr fnErr : String)
  | wrongTypeArity (type : String) (expected found : Int)
  | unknownType (type : String)
  | explicitAny
  | immutableAssignment (name : String)
  | notExhaustive (missing : List String)
  | invalidPattern (pattern subject : String) (expected : List String)
  | breakOutsideLoop
  | continueOutsideLoop
  | notIterable (type : String)
deriving DecidableEq, Repr

/-- The members of a list, each once, in rising order. -/
def sortedNames (names : List String) : List String :=
  (names.mergeSort (fun a b => decide (a ≤ b))).eraseReps

namespace Problem

def code : Problem → String
  | typeMismatch .. => "E0301"
  | undefinedVariable .. => "E0302"
  | undefinedFunction .. => "E0303"
  | invalidOperation .. => "E0304"
  | incomparable .. => "E0305"
  | returnMismatch .. => "E0306"
  | branchMismatch .. => "E0307"
  | wrongArgCount .. => "E0308"
  | conditionNotBool .. => "E0309"
  | cannotNegate .. => "E0310"
  | tryNotResult .. => "E0311"
  | tryOutsideResult => "E0312"
  | tryErrorMismatch .. => "E0313"
  | wrongTypeArity .. => "E0314"
  | unknownType .. => "E0315"
  | explicitAny => "E0316"
  | immutableAssignment .. => "E0323"
  | notExhaustive .. => "E0503"
  | invalidPattern .. => "E0504"
  | breakOutsideLoop => "E0505"
  | continueOutsideLoop => "E0506"
  | notIterable .. => "E0507"

def parameterWord (n : Int) : String := if n == 1 then "parameter" else "parameters"

def message : Problem → String
  | typeMismatch .. => "incompatible types in assignment"
  | undefinedVariable name => "undefined variable `" ++ name ++ "`"
  | undefinedFunction name => "undefined function `" ++ name ++ "`"
  | invalidOperation op left right =>
    "cannot apply `" ++ op ++ "` to `" ++ left ++ "` and `" ++ right ++ "`"
  | incomparable left right _ => "cannot compare `" ++ left ++ "` with `" ++ right ++ "`"
  | returnMismatch .. => "return type mismatch"
  | branchMismatch .. => "incompatible types in if/else branches"
  | wrongArgCount fn .. => "wrong number of arguments for `" ++ fn ++ "`"
  | conditionNotBool _ => "condition must be a boolean"
  | cannotNegate type => "cannot negate `" ++ type ++ "`"
  | tryNotResult _ => "the `?` operator can only be applied to `Result` types"
  | tryOutsideResult => "the `?` operator can only be used in functions that return `Result`"
  | tryErrorMismatch .. => "incompatible error types for `?` operator"
  | wrongTypeArity type expected found =>
    "`" ++ type ++ "` expects " ++ toString expected ++ " type " ++ parameterWord expected ++
      ", but " ++ toString found ++ (if found == 1 then " was" else " were") ++ " provided"
  | unknownType type => "unknown type `" ++ type ++ "`"
  | explicitAny => "`Any` cannot be used in type annotations"
  | immutableAssignment name => "cannot assign to immutable variable `" ++ name ++ "`"
  | notExhaustive _ => "match is not exhaustive"
  | invalidPattern pattern subject _ =>
    "pattern `" ++ pattern ++ "` is not valid for type `" ++ subject ++ "`"
  | breakOutsideLoop => "`break` outside of loop"
  | continueOutsideLoop => "`continue` outside of loop"
  | notIterable type => "cannot iterate over type `" ++ type ++ "`"

def notes : Problem → List String
  | typeMismatch expected found _ => ["expected " ++ expected, "found " ++ found]
  | returnMismatch expected found => ["expected " ++ expected, "found " ++ found]
  | incomparable _ _ op => ["operator `" ++ op ++ "` requires operands of the same type"]
  | branchMismatch thenType elseType =>
    ["then branch has type " ++ thenType, "else branch has type " ++ elseType]
  | wrongArgCount _ expected found =>
    ["expected " ++ toString expected ++ " argument(s)", "found " ++ toString found ++ " argument(s)"]
  | conditionNotBool found => ["found " ++ found]
  | tryNotResult found => ["found type `" ++ found ++ "`"]
  | tryErrorMismatch operandErr fnErr =>
    ["expression has error type `" ++ operandErr ++ "`",
      "function returns error type `" ++ fnErr ++ "`"]
  | explicitAny => ["`Any` is an internal type for Python interop only"]
  | notExhaustive missing => ["missing patterns: " ++ ", ".intercalate (sortedNames missing)]
  | invalidPattern _ _ expected =>
    ["expected patterns: " ++ ", ".intercalate (sortedNames expected)]
  | _ => []

/-- Advice on a problem.  An empty hint counts as none. -/
def hints : Problem → List String
  | typeMismatch _ _ hint? =>
    match hint? with
    | some hint =>
      if hint.isEmpty then ["change the type annotation or convert the value"] else [hint]
    | none => ["change the type annotation or convert the value"]
  | undefinedVariable name => ["did you mean to define `" ++ name ++ "` first?"]
  | undefinedFunction name => ["did you mean to define `" ++ name ++ "` or import it?"]
  | invalidOperation op _ _ => ["operator `" ++ op ++ "` is not defined for these types"]
  | branchMismatch .. => ["both branches must return the same type"]
  | conditionNotBool _ => ["use a comparison or boolean expression"]
  | cannotNegate _ => ["unary minus only works on Int and Float"]
  | tryNotResult _ => ["ensure the expression returns a Result[T, E]"]
  | tryOutsideResult => ["change the function's return type to Result[T, E]"]
  | tryErrorMismatch .. => ["ensure the error types are compatible"]
  | wrongTypeArity type expected _ =>
    ["use `" ++ type ++ "[...]` with " ++ toString expected ++ " type " ++ parameterWord expected]
  | unknownType _ =>
    ["valid types are: Int, Float, String, Bool, Void, Option[T], Result[T, E], List[T]"]
  | explicitAny => ["use a specific type like Int, String, or Option[T]"]
  | immutableAssignment name =>
    ["consider declaring with `let mut " ++ name ++ "` to make it mutable"]
  | notExhaustive _ => ["add arms for all possible patterns"]
  | breakOutsideLoop => ["`break` can only be used inside `while` or `for` loops"]
  | continueOutsideLoop => ["`continue` can only be used inside `while` or `for` loops"]
  | notIterable _ => ["`for` loop requires a `List[T]` to iterate over"]
  | _ => []

def toDiagnostic (p : Problem) (span : Span) : Diagnostic where
  code := p.code
  message := p.message
  span := span
  notes := p.notes
  hints := p.hints

end Problem

/-- A cause of a warning. -/
inductive Concern
  | unusedVariable (name : String)
  | unusedParameter (name : String) (fn? : Option String)
  | unreachable
  | resultIgnored
  | optionIgnored
  | constantCondition (value : Bool)
  | loopWithoutExit
deriving DecidableEq, Repr

namespace Concern

def code : Concern → String
  | unusedVariable .. => "W0101"
  | unusedParameter .. => "W0102"
  | unreachable => "W0201"
  | loopWithoutExit => "W0204"
  | resultIgnored => "W0304"
  | optionIgnored => "W0305"
  | constantCondition .. => "W0306"

/-- The message of a concern.  An empty function name counts as none. -/
def message : Concern → String
  | unusedVariable name => "unused variable `" ++ name ++ "`"
  | unusedParameter name fn? =>
    let place := match fn? with
      | some fn => if fn.isEmpty then "" else " in function `" ++ fn ++ "`"
      | none => ""
    "unused parameter `" ++ name ++ "`" ++ place
  | unreachable => "unreachable code"
  | resultIgnored => "`Result` value is ignored"
  | optionIgnored => "`Option` value is ignored"
  | constantCondition value => "condition is always `" ++ (if value then "true" else "false") ++ "`"
  | loopWithoutExit => "`loop` without `break` or `return`"

def notes : Concern → List String
  | unreachable => ["this code will never execute"]
  | constantCondition value =>
    ["this branch will " ++ (if value then "always" else "never") ++ " execute"]
  | _ => []

def hints : Concern → List String
  | unusedVariable name => ["if this is intentional, prefix with underscore: `_" ++ name ++ "`"]
  | unusedParameter name _ => ["if this is intentional, prefix with underscore: `_" ++ name ++ "`"]
  | resultIgnored =>
    ["use `let _ = ...` to explicitly ignore, or handle with `match`/`?` operator"]
  | optionIgnored => ["use `let _ = ...` to explicitly ignore, or handle with `match`"]
  | loopWithoutExit => ["add a `break` or `return` statement to exit the loop"]
  | _ => []

/-- Whether a concern without a place is put at the dummy place. -/
def needsPlace : Concern → Bool
  | unusedVariable .. | unusedParameter .. => true
  | _ => false

/-- A concern at a place, as far as that is known. -/
def toWarning (c : Concern) (span? : Option Span) : Warning where
  code := c.code
  message := c.message
  span? := if c.needsPlace then some (span?.getD .dummy) else span?
  notes := c.notes
  hints := c.hints

end Concern

end Owl
