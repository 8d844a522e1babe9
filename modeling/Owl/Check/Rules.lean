/-
The rules of the check, one for each construct.

A rule takes the types of the parts of a construct, or the actions that find
them, and gives the type of the whole.  It records what is wrong with the
construct itself; what is wrong inside of the parts is their affair.
-/
import Owl.Builtin
import Owl.Check.State
import Owl.Tree

namespace Owl.CheckM

/-! ### Written types -/

mutual

/-- The type that is written, or `Unknown`. -/
def readType : TypeExpr → CheckM Ty
  | .mk name params span? => do
    let place := span?.getD .dummy
    if name == "Any" then
      report .explicitAny place
      return .unknown
    match Ty.primitive? name with
    | some t =>
      if params.isEmpty then return t
      else
        report (.wrongTypeArity name 0 params.length) place
        return .unknown
    | none =>
      match Ty.arity? name with
      | none =>
        report (.unknownType name) place
        return .unknown
      | some arity =>
        if params.length == arity then return (Ty.withParams? name (← readTypes params)).getD .unknown
        else
          report (.wrongTypeArity name arity params.length) place
          return .unknown

def readTypes : List TypeExpr → CheckM (List Ty)
  | [] => return []
  | t :: ts => do
    let first ← readType t
    return first :: (← readTypes ts)

end

/-! ### Expressions -/

/-- The type of a name, which counts as used. -/
def nameRule (name : String) (place : Span) : CheckM Ty := do
  if name == "None" then return .option .any
  match (← get).env.var? name with
  | some v =>
    modifyEnv (·.markUsed name)
    return v.type
  | none =>
    report (.undefinedVariable name) place
    return .unknown

def isArithmetic (op : String) : Bool := ["+", "-", "*", "/", "%"].contains op

def isEquality (op : String) : Bool := ["==", "!="].contains op

def isOrdering (op : String) : Bool := ["<", ">", "<=", ">="].contains op

def binaryRule (op : String) (left right : Ty) (place : Span) : CheckM Ty := do
  if left == .any || right == .any then return .any
  if isArithmetic op then
    if op == "+" && left == .string && right == .string then return .string
    if left.isNumber && right.isNumber then
      return if left == .float || right == .float then .float else .int
    report (.invalidOperation op left.text right.text) place
    return .unknown
  if isEquality op then
    unless left.agree right do report (.incomparable left.text right.text op) place
    return .bool
  if isOrdering op then
    unless left.isNumber && right.isNumber do report (.incomparable left.text right.text op) place
    return .bool
  return .unknown

def unaryRule (op : String) (operand : Ty) (place : Span) : CheckM Ty := do
  if op == "-" && !(operand.isNumber || operand == .any) then
    report (.invalidOperation op operand.text "") place
  return operand

/-- The type of a list: that of its first element, if the others are compatible with it. -/
def listRule (types : List Ty) (place : Span) : CheckM Ty := do
  match types with
  | [] => return .list .any
  | first :: rest =>
    match rest.find? (fun t => !first.compatible t) with
    | some t =>
      report (.typeMismatch first.text t.text none) place
      return .list .unknown
    | none => return .list first

/-- The type that a constructor gives to a value of a type. -/
def constructed : String → Ty → Ty
  | "Some", t => .option t
  | "Ok", t => .result t .any
  | "Err", t => .result .any t
  | _, _ => .unknown

/-- The type of a constructor's call.  Its argument is looked at only if it is the only one. -/
def constructorRule (name : String) (count : Nat) (args : CheckM (List Ty)) (place : Span) :
    CheckM Ty := do
  if name == "None" then
    report (.undefinedFunction name) place
    return .unknown
  if count == 1 then return constructed name ((← args).headD .any)
  else
    report (.wrongArgCount name 1 count) place
    return if name == "Some" then .option .any else .result .any .any

def getRule (types : List Ty) (listPlace indexPlace : Span) : CheckM Ty := do
  let listType := types.getD 0 .unknown
  let indexType := types.getD 1 .unknown
  unless [Ty.int, .any, .unknown].contains indexType do
    report (.typeMismatch "Int" indexType.text none) indexPlace
  match listType with
  | .list element => return element
  | other =>
    if other == .any then return .any
    report (.typeMismatch "List[T]" other.text none) listPlace
    return .unknown

def pushRule (types : List Ty) (listPlace valuePlace : Span) : CheckM Ty := do
  let listType := types.getD 0 .unknown
  let valueType := types.getD 1 .unknown
  match listType with
  | .list element =>
    unless element.compatible valueType do
      report (.typeMismatch element.text valueType.text none) valuePlace
    return .list element
  | other =>
    if other == .any then return .list valueType
    report (.typeMismatch "List[T]" other.text none) listPlace
    return .list .unknown

def functionRule (name : String) (count : Nat) (args : CheckM (List Ty)) (place : Span) :
    CheckM Ty := do
  match (← get).env.fn? name with
  | some signature =>
    if signature.params != [.any] && count != signature.params.length then
      report (.wrongArgCount name signature.params.length count) place
    let _ ← args
    return signature.returns
  | none =>
    if ((← get).env.var? name).any (·.type == .any) then
      let _ ← args
      return .any
    else
      report (.undefinedFunction name) place
      return .unknown

/-- The type of a call by name: constructors come first, then `get` and `push`, then the functions in
scope. -/
def callRule (name : String) (argPlaces : List Span) (args : CheckM (List Ty)) (place : Span) :
    CheckM Ty := do
  let count := argPlaces.length
  let first := argPlaces.getD 0 .dummy
  let second := argPlaces.getD 1 .dummy
  if (ValueConstructor.find? name).isSome then constructorRule name count args place
  else if name == "get" then
    if count == 2 then getRule (← args) first second
    else
      report (.wrongArgCount name 2 count) place
      return .unknown
  else if name == "push" then
    if count == 2 then pushRule (← args) first second
    else
      report (.wrongArgCount name 2 count) place
      return .list .unknown
  else functionRule name count args place

/-- The type of `e?`: the success type of `e`. -/
def propagateRule (operand : Ty) (place : Span) : CheckM Ty := do
  match operand with
  | .result ok err =>
    match (← get).returns? with
    | some (.result _ fnErr) =>
      if fnErr != .any && err != .any && !fnErr.agree err then
        report (.tryErrorMismatch err.text fnErr.text) place
    | _ => report .tryOutsideResult place
    return ok
  | other =>
    report (.tryNotResult other.text) place
    return .unknown

def expectedPatterns : Ty → List String
  | .option _ => ["Some", "None"]
  | .result _ _ => ["Ok", "Err"]
  | _ => []

/-- What a pattern binds when it is matched against a type. -/
def patternBinding? : Ty → Pattern → Option (String × Ty)
  | .option inner, .some binding _ => some (binding, inner)
  | .result ok _, .ok binding _ => some (binding, ok)
  | .result _ err, .err binding _ => some (binding, err)
  | _, _ => none

/-- Checks an arm: the name of its pattern with the type of its body, or nothing if the pattern does
not fit. -/
def armRule (subject : Ty) (pattern : Pattern) (body : CheckM Ty) :
    CheckM (Option (String × Ty)) := do
  if (expectedPatterns subject).contains pattern.name then
    inScope do
      match patternBinding? subject pattern with
      | some (binding, type) => defineVar binding { type }
      | none => pure ()
      return some (pattern.name, ← body)
  else
    report (.invalidPattern pattern.name subject.text (expectedPatterns subject))
      (pattern.span?.getD .dummy)
    return none

/-- The first arm whose type is not that of the first one, by its number counted from 1. -/
def oddArm? (first : Ty) : Nat → List Ty → Option (Nat × Ty)
  | _, [] => none
  | number, t :: rest =>
    if t == .any || first == .any || t.agree first then oddArm? first (number + 1) rest
    else some (number, t)

def armsRule (subject : Ty) (arms : List (String × Ty)) (place : Span) : CheckM Ty := do
  let missing := (expectedPatterns subject).filter fun p => !(arms.map Prod.fst).contains p
  unless missing.isEmpty do report (.notExhaustive missing) place
  match arms.map Prod.snd with
  | [] => return .unknown
  | first :: rest =>
    match oddArm? first 2 rest with
    | some (number, found) =>
      reportMatch (.arm first number found) place
      return .unknown
    | none => return first

def matchRule (subject : Ty) (arms : CheckM (List (String × Ty))) (place : Span) : CheckM Ty := do
  if (expectedPatterns subject).isEmpty then
    reportMatch (.subject subject) place
    return .unknown
  else armsRule subject (← arms) place

/-! ### Statements -/

def conditionRule (condition : Expr) (type : CheckM Ty) : CheckM Unit := do
  let type ← type
  match condition with
  | .bool value _ => warnAlways (.constantCondition value) (some condition.place)
  | _ => pure ()
  unless [Ty.bool, .any, .unknown].contains type do
    report (.conditionNotBool type.text) condition.place

/-- The type of a branch: its last statement is checked before the others. -/
def branchRule (last : CheckM Ty) (others : CheckM Unit) : CheckM Ty := do
  let type ← last
  others
  return type

def choiceRule (thenType elseType : Ty) (place : Span) : CheckM Ty := do
  unless thenType.compatible elseType do
    report (.typeMismatch ("then: " ++ thenType.text) ("else: " ++ elseType.text)
      (some "both branches of an if expression must return compatible types")) place
  return if thenType == .any then elseType else thenType

def letRule (name : String) (value : Ty) (type? : Option TypeExpr) (isMutable : Bool)
    (span? : Option Span) : CheckM Unit := do
  match type? with
  | some written =>
    let expected ← readType written
    unless expected.compatible value do
      report (.typeMismatch expected.text value.text none) (span?.getD .dummy)
    defineVar name { type := expected, span?, isMutable }
  | none => defineVar name { type := value, span?, isMutable }

/-- Gives a variable a new value, which is looked at only if the variable can change. -/
def assignRule (name : String) (value : CheckM Ty) (place : Span) : CheckM Unit := do
  match (← get).env.var? name with
  | none => report (.undefinedVariable name) place
  | some v =>
    if v.isMutable then
      let type ← value
      unless v.type.compatible type do report (.typeMismatch v.type.text type.text none) place
      modifyEnv (·.markUsed name)
    else report (.immutableAssignment name) place

/-- What the function that is checked has to return, if that is a value. -/
def expectedReturn? (c : Checker) : Option Ty :=
  c.returns?.filter (· != .void)

def returnRule (type : Ty) (place : Span) : CheckM Unit := do
  match expectedReturn? (← get) with
  | some expected =>
    unless expected.compatible type do report (.returnMismatch expected.text type.text) place
  | none => pure ()

def elementRule (collection : Ty) (place : Span) : CheckM Ty := do
  match collection with
  | .list element => return element
  | other =>
    if other == .any then return .any
    report (.notIterable other.text) place
    return .unknown

/-- Checks the body of a loop over a collection, in a scope with the loop's variable. -/
def forRule (item : String) (element : Ty) (body : CheckM Unit) (span? : Option Span) :
    CheckM Unit :=
  inScope do
    defineVar item { type := element, span? }
    inLoop body
    modifyEnv (·.markUsed item)

def loopOnlyRule (problem : Problem) (place : Span) : CheckM Unit := do
  if (← get).loopDepth == 0 then report problem place

/-- Records that a result or an optional value is thrown away. -/
def ignoredRule (type : Ty) (place : Span) : CheckM Unit := do
  match type with
  | .result _ _ => warnAlways .resultIgnored (some place)
  | .option _ => warnAlways .optionIgnored (some place)
  | _ => pure ()

end Owl.CheckM
