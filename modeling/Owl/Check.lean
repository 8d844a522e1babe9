/-
Checking programs.

`checkExpr` and `checkStmt` walk through a tree and apply the rules in the order
in which things are looked at; `checkFunction` checks a function in a scope of
its own.  `Checker.check` checks a program: the signatures of all functions come
first, then the imports, the function bodies and the top-level statements.

The environment of a `Checker` goes on to the next program; what was recorded
does not.
-/
import Owl.Check.Rules

namespace Owl

open CheckM

/-! ### Exits -/

mutual

/-- Whether a statement returns on every path that the check can see. -/
def Stmt.returns : Stmt → Bool
  | .ret .. => true
  | .ifElse _ thenBody (some elseBody) _ => anyReturns thenBody && anyReturns elseBody
  | _ => false

def anyReturns : List Stmt → Bool
  | [] => false
  | s :: rest => s.returns || anyReturns rest

end

mutual

/-- Whether a statement holds a break or a return. -/
def Stmt.hasExit : Stmt → Bool
  | .breakLoop _ => true
  | .ret .. => true
  | .ifElse _ thenBody none _ => anyExit thenBody
  | .ifElse _ thenBody (some elseBody) _ => anyExit thenBody || anyExit elseBody
  | .whileLoop _ body _ => anyExit body
  | .forLoop _ _ body _ => anyExit body
  | .loop body _ => anyExit body
  | _ => false

/-- Whether some of the statements hold a break or a return. -/
def anyExit : List Stmt → Bool
  | [] => false
  | s :: rest => s.hasExit || anyExit rest

end

/-! ### The walk -/

mutual

def checkExpr : Expr → CheckM Ty
  | .int .. => return .int
  | .float .. => return .float
  | .string .. => return .string
  | .bool .. => return .bool
  | .name name span? => nameRule name (span?.getD .dummy)
  | .binary left op right span? => do
    let leftType ← checkExpr left
    let rightType ← checkExpr right
    binaryRule op leftType rightType (span?.getD .dummy)
  | .unary op operand span? => do
    unaryRule op (← checkExpr operand) (span?.getD .dummy)
  | .call (.name name _) args span? =>
    callRule name (args.map Expr.place) (checkExprs args) (span?.getD .dummy)
  | .call (.field object _ _) args _ => do
    let _ ← checkExpr object
    let _ ← checkExprs args
    return .any
  | .call _ args _ => do
    let _ ← checkExprs args
    return .unknown
  | .field object _ _ => do
    let _ ← checkExpr object
    return .any
  | .propagate operand span? => do
    propagateRule (← checkExpr operand) (span?.getD .dummy)
  | .list elements span? => do
    listRule (← checkExprs elements) (span?.getD .dummy)
  | .matching subject arms span? => do
    let type ← checkExpr subject
    matchRule type (checkArms type arms) (span?.getD .dummy)
  | .stmt s => if s.isChoice then checkStmt .value s else return .unknown
  | .unknown => return .unknown

/-- The types of expressions, from left to right. -/
def checkExprs : List Expr → CheckM (List Ty)
  | [] => return []
  | e :: es => do
    let first ← checkExpr e
    return first :: (← checkExprs es)

/-- The patterns and types of the arms that fit a subject. -/
def checkArms (subject : Ty) : List Arm → CheckM (List (String × Ty))
  | [] => return []
  | ⟨pattern, body, _⟩ :: arms => do
    let first? ← armRule subject pattern (checkExpr body)
    return first?.toList ++ (← checkArms subject arms)

/-- Checks a statement.  Expressions have a type, and so do choices that are used for their value;
the type of all other statements is `Void`. -/
def checkStmt (use : Use) : Stmt → CheckM Ty
  | .letVar name value type? isMutable span? => do
    letRule name (← checkExpr value) type? isMutable span?
    return .void
  | .assign name value span? => do
    assignRule name (checkExpr value) (span?.getD .dummy)
    return .void
  | .expr e _ => checkExpr e
  | .ret none _ => return .void
  | .ret (some e) span? => do
    returnRule (← checkExpr e) (span?.getD .dummy)
    return .void
  | .whileLoop condition body _ => do
    conditionRule condition (checkExpr condition)
    inLoop (checkStmts body)
    return .void
  | .forLoop item collection body span? => do
    let element ← elementRule (← checkExpr collection) collection.place
    forRule item element (checkStmts body) span?
    return .void
  | .loop body span? => do
    inLoop (checkStmts body)
    unless anyExit body do warn .loopWithoutExit (some (span?.getD .dummy))
    return .void
  | .breakLoop span? => do
    loopOnlyRule .breakOutsideLoop (span?.getD .dummy)
    return .void
  | .continueLoop span? => do
    loopOnlyRule .continueOutsideLoop (span?.getD .dummy)
    return .void
  | .ifElse condition thenBody elseBody? span? => do
    conditionRule condition (checkExpr condition)
    match use with
    | .effect =>
      checkStmts thenBody
      match elseBody? with
      | none => return .void
      | some elseBody =>
        checkStmts elseBody
        return .void
    | .value =>
      let thenType ← branchRule (checkLast thenBody) (checkInit thenBody)
      match elseBody? with
      | none => return .void
      | some [] => return .void
      | some (s :: rest) =>
        let elseType ← branchRule (checkLast (s :: rest)) (checkInit (s :: rest))
        choiceRule thenType elseType (span?.getD .dummy)
  | .fn _ => return .void
  | .bare _ => return .void
  | .unknown => return .void

def checkStmts : List Stmt → CheckM Unit
  | [] => return
  | s :: rest => do
    let _ ← checkStmt .effect s
    checkStmts rest

def checkLast : List Stmt → CheckM Ty
  | [] => return .void
  | [s] => checkStmt .value s
  | _ :: rest => checkLast rest

def checkInit : List Stmt → CheckM Unit
  | [] => return
  | [_] => return
  | s :: rest => do
    let _ ← checkStmt .effect s
    checkInit rest

end

/-! ### Functions -/

/-- The signature that a function is known by: its parameters take any value. -/
def signatureOf (fn : FnDecl) : CheckM Signature := do
  let returns ← match fn.returns? with
    | some written => readType written
    | none => pure .void
  return { params := fn.params.map fun _ => .any, returns }

def declare (fn : FnDecl) : CheckM Unit := do
  let signature ← signatureOf fn
  modifyEnv (·.defineFn fn.name signature)

/-- Defines a parameter; one without a type takes any value. -/
def defineParam (p : Param) : CheckM Unit := do
  let type ← match p.type? with
    | some written => readType written
    | none => pure .any
  defineVar p.name { type, span? := p.span?, isParam := true }

/-- Checks one statement of a function body: its type, and whether the function returns in it.
`isLast` says whether its value can be what the function returns. -/
def checkBodyStmt (isLast : Bool) (s : Stmt) : CheckM (Ty × Bool) := do
  let type ← checkStmt .value s
  match s with
  | .expr e _ =>
    let isResult := isLast && (expectedReturn? (← get)).isSome
    unless isResult do ignoredRule type e.place
    return (type, false)
  | _ => return (type, s.returns)

/-- Checks a function body: the type of its last statement, and whether it returns before its end.
`returned` says whether a statement before this body returns. -/
def checkBody (returned : Bool) : List Stmt → CheckM (Ty × Bool)
  | [] => return (.void, returned)
  | s :: rest => do
    if returned then warn .unreachable s.span?
    let (type, returns) ← checkBodyStmt rest.isEmpty s
    if rest.isEmpty then return (type, returned || returns)
    else checkBody (returned || returns) rest

/-- Whether a statement is a choice whose `else` is missing or empty. -/
def Stmt.lacksElse : Stmt → Bool
  | .ifElse _ _ none _ => true
  | .ifElse _ _ (some elseBody) _ => elseBody.isEmpty
  | _ => false

/-- Whether the last statement of a body gives its value, but not on every path. -/
def Stmt.lacksPath : Stmt → Bool
  | .expr (.stmt s) _ => s.lacksElse
  | s => s.lacksElse

/-- Whether the value of a last statement can be what a function returns. -/
def Stmt.givesValue : Stmt → Bool
  | .expr .. => true
  | s => s.isChoice

/-- Checks the value of the last statement against what the function returns. -/
def resultRule (expected : Ty) (last : Stmt) (type : Ty) : CheckM Unit := do
  if !last.givesValue then
    report (.returnMismatch expected.text "non-expression statement") last.place
  else if last.lacksPath then
    report (.returnMismatch (expected.text ++ " on all paths") "if without else branch") last.place
  else if !expected.compatible type then
    report (.returnMismatch expected.text type.text) last.place

/-- Warns about the variables and parameters of a function that are not used. -/
def warnUnused (fnName : String) : CheckM Unit := do
  for (name, v) in (← get).env.scope.unused do
    if v.isParam then warn (.unusedParameter name fnName) v.span?
    else warn (.unusedVariable name) v.span?

/-- Checks what is inside of a function, in its scope. -/
def checkInside (fn : FnDecl) : CheckM Unit := do
  match fn.body.getLast?, expectedReturn? (← get) with
  | none, some expected =>
    report (.returnMismatch expected.text "Void (empty body)") (fn.span?.getD .dummy)
  | last?, expected? =>
    let (type, returned) ← checkBody false fn.body
    unless returned do
      match last?, expected? with
      | some last, some expected => resultRule expected last type
      | _, _ => pure ()
      warnUnused fn.name

def checkFunction (fn : FnDecl) : CheckM Unit := do
  inScope do
    fn.params.forM defineParam
    modify fun c => { c with returns? := (c.env.fn? fn.name).map (·.returns) }
    checkInside fn
  modify fun c => { c with returns? := none }

/-! ### Programs -/

def checkProgram (p : Program) : CheckM Unit := do
  p.functions.forM declare
  (p.imports.flatMap Import.bound).forM fun name => defineVar name { type := .any }
  p.functions.forM checkFunction
  checkStmts p.statements

namespace Checker

def new : Checker :=
  { env := Builtin.all.foldl
      (fun env b => env.defineFn b.name { params := b.params, returns := b.returns }) default }

/-- Checks a program.  What was recorded before is dropped, and what was defined stays. -/
def check (c : Checker) (p : Program) : Checker :=
  (checkProgram p { c with findings := [], warnings := [] }).2

end Checker

end Owl
