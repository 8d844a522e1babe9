/-
Emitting target code for a program tree.

Values become texts, statements become `Code`.  A `?` that is the whole value of a
`let`, a `return` or an expression statement becomes a guard that returns early; a
`match` becomes a conditional expression on a variable of its own.  Both take the
next number for the names they need.

Emission can fail: at a node of no known kind, or at a call that has fewer
arguments than its template asks for.  A failure says how many blocks deep it
happened, and the counter stays where it was; an `Emitter` goes on from there.
-/
import Owl.Builtin
import Owl.Code
import Owl.Number.Decimal
import Owl.Text.Word
import Owl.Tree.Dump

namespace Owl

/-- Why no code can be emitted. -/
inductive EmitFault
  | unknownExpr (kind : String)
  | unknownStmt (kind : String)
  /-- A template asks for an argument that the call does not have. -/
  | missingArg (index : Nat)
deriving DecidableEq, Repr

def EmitFault.message : EmitFault → String
  | unknownExpr kind => "Unknown expression type: <class 'owllang.ast.nodes." ++ kind ++ "'>"
  | unknownStmt kind => "Unknown statement type: <class 'owllang.ast.nodes." ++ kind ++ "'>"
  | missingArg index =>
    "Replacement index " ++ toString index ++ " out of range for positional args tuple"

/-- A fault, and how many blocks deep it happened. -/
structure EmitFailure where
  fault : EmitFault
  depth : Nat
deriving DecidableEq, Repr

abbrev EmitM := ExceptT EmitFailure (StateM Nat)

namespace EmitM

def fail {α : Type} (fault : EmitFault) : EmitM α := throw ⟨fault, 0⟩

def fresh : EmitM Nat := modifyGet fun n => (n, n + 1)

def nested {α : Type} (m : EmitM α) : EmitM α :=
  ExceptT.adapt (fun f => { f with depth := f.depth + 1 }) m

section Run

variable {α β : Type} {m : EmitM α} {k : α → EmitM β} {n n' : Nat}

theorem bind_of_ok {a : α} (h : m n = (.ok a, n')) : (m >>= k) n = k a n' := by
  show (ExceptT.bindCont k : _ → StateM Nat _) (m n).1 (m n).2 = k a n'
  rw [h]
  rfl

theorem bind_of_error {f : EmitFailure} (h : m n = (.error f, n')) :
    (m >>= k) n = (.error f, n') := by
  show (ExceptT.bindCont k : _ → StateM Nat _) (m n).1 (m n).2 = (.error f, n')
  rw [h]
  rfl

/-- What comes second was run with what the first action returned. -/
theorem of_bind_eq_ok {b : β} (h : (m >>= k) n = (.ok b, n')) :
    ∃ a l, m n = (.ok a, l) ∧ k a l = (.ok b, n') := by
  cases hrun : m n with
  | mk outcome l =>
    cases outcome with
    | ok a =>
      rw [bind_of_ok hrun] at h
      exact ⟨a, l, rfl, h⟩
    | error f =>
      rw [bind_of_error hrun] at h
      cases h

theorem nested_run (m : EmitM α) (n : Nat) :
    nested m n = ((m n).1.mapError fun f => { f with depth := f.depth + 1 }, (m n).2) :=
  rfl

theorem of_nested_eq_ok {a : α} (h : nested m n = (.ok a, n')) : m n = (.ok a, n') := by
  rw [nested_run] at h
  cases hrun : m n with
  | mk outcome l =>
    rw [hrun] at h
    cases outcome with
    | ok b => exact h
    | error f => cases h

end Run

section Results

variable {α β γ δ : Type} {m : EmitM α} {p : EmitM β} {P : α → Prop} {Q : γ → Prop}
  {R : α → β → Prop} {S : γ → δ → Prop}

/-- Whatever an action returns is so. -/
def Gives (m : EmitM α) (P : α → Prop) : Prop := ∀ n n' a, m n = (.ok a, n') → P a

theorem Gives.pure {a : α} (h : P a) : Gives (Pure.pure a) P := by
  intro n n' b hrun
  cases hrun
  exact h

theorem Gives.fail (fault : EmitFault) : Gives (fail fault) P := fun _ _ _ hrun => nomatch hrun

theorem Gives.any (m : EmitM α) : Gives m fun _ => True := fun _ _ _ _ => trivial

theorem Gives.bind {k : α → EmitM γ} (hm : Gives m P) (hk : ∀ a, P a → Gives (k a) Q) :
    Gives (m >>= k) Q := by
  intro n n' c hrun
  obtain ⟨a, l, ha, hc⟩ := of_bind_eq_ok hrun
  exact hk a (hm _ _ _ ha) _ _ _ hc

theorem Gives.nested (hm : Gives m P) : Gives (nested m) P :=
  fun n n' a hrun => hm n n' a (of_nested_eq_ok hrun)

/-- Whatever an action returns, another one returns something that goes with it, and leaves the
same number. -/
def Pairs (m : EmitM α) (p : EmitM β) (R : α → β → Prop) : Prop :=
  ∀ n n' a, m n = (.ok a, n') → ∃ b, p n = (.ok b, n') ∧ R a b

theorem Pairs.pure {a : α} {b : β} (h : R a b) : Pairs (Pure.pure a) (Pure.pure b) R := by
  intro n n' c hrun
  cases hrun
  exact ⟨b, rfl, h⟩

theorem Pairs.fail (fault : EmitFault) : Pairs (fail fault) p R := fun _ _ _ hrun => nomatch hrun

theorem Pairs.refl (m : EmitM α) : Pairs m m Eq := fun _ _ a hrun => ⟨a, hrun, rfl⟩

theorem Pairs.bind {k : α → EmitM γ} {l : β → EmitM δ} (hm : Pairs m p R)
    (hk : ∀ a b, R a b → Pairs (k a) (l b) S) : Pairs (m >>= k) (p >>= l) S := by
  intro n n' c hrun
  obtain ⟨a, i, ha, hc⟩ := of_bind_eq_ok hrun
  obtain ⟨b, hb, hab⟩ := hm _ _ _ ha
  rw [bind_of_ok hb]
  exact hk a b hab _ _ _ hc

end Results

end EmitM

open EmitM

/-! ### The classes of results -/

/-- Whether an expression is the name of a constructor of results. -/
def Expr.isResultName : Expr → Bool
  | .name id _ => id == "Ok" || id == "Err"
  | _ => false

mutual

def Expr.usesResult : Expr → Bool
  | .propagate .. => true
  | .call callee args _ => callee.isResultName || callee.usesResult || anyUsesResult args
  | .binary left _ right _ => left.usesResult || right.usesResult
  | .unary _ operand _ => operand.usesResult
  | .field object _ _ => object.usesResult
  | _ => false

/-- Whether some of the expressions are seen to use results. -/
def anyUsesResult : List Expr → Bool
  | [] => false
  | e :: es => e.usesResult || anyUsesResult es

end

mutual

def Stmt.usesResult : Stmt → Bool
  | .letVar _ value _ _ _ => value.usesResult
  | .assign _ value _ => value.usesResult
  | .expr e _ => e.usesResult
  | .ret (some value) _ => value.usesResult
  | .whileLoop condition body _ => condition.usesResult || blockUsesResult body
  | .ifElse condition thenBody none _ => condition.usesResult || blockUsesResult thenBody
  | .ifElse condition thenBody (some elseBody) _ =>
    condition.usesResult || blockUsesResult thenBody || blockUsesResult elseBody
  | _ => false

/-- Whether some of the statements are seen to use results. -/
def blockUsesResult : List Stmt → Bool
  | [] => false
  | s :: rest => s.usesResult || blockUsesResult rest

end

def Program.usesResult (p : Program) : Bool :=
  p.functions.any (fun f => blockUsesResult f.body) || blockUsesResult p.statements

/-! ### Values -/

/-- A text between quotes; only the quote and the backslash are escaped. -/
def stringCode (s : String) : String :=
  "\"" ++ String.ofList (s.toList.flatMap escape) ++ "\""
where
  escape (c : Char) : List Char :=
    if c == '\\' || c == '"' then ['\\', c] else [c]

def commaList (values : List String) : String := ", ".intercalate values

def Pattern.test (temp : String) : Pattern → String
  | .some .. => temp ++ " is not None and hasattr(" ++ temp ++ ", 'value')"
  | .none _ => temp ++ " is None"
  | .ok .. => "isinstance(" ++ temp ++ ", Ok)"
  | .err .. => "isinstance(" ++ temp ++ ", Err)"
  | .unknown => "True"

/-- The value of an arm: what the pattern binds stands for a part of the variable. -/
def Pattern.bind (temp body : String) : Pattern → String
  | .some binding _ => Text.replaceWord binding (temp ++ ".value") body
  | .ok binding _ => Text.replaceWord binding (temp ++ ".value") body
  | .err binding _ => Text.replaceWord binding (temp ++ ".error") body
  | .none _ => body
  | .unknown => body

/-- A call of a function that every program knows. -/
def templateCode (b : Builtin) (args : List String) : EmitM String :=
  match Piece.fill args b.template with
  | .ok s => return s
  | .error index => fail (.missingArg index)

def namedCallCode (name : String) (args : List String) : EmitM String :=
  match Builtin.find? name with
  | some b => templateCode b args
  | none => return name ++ "(" ++ commaList args ++ ")"

mutual

def emitExpr : Expr → EmitM String
  | .int value _ => return toString value
  | .float value _ => return value.text
  | .string value _ => return stringCode value
  | .bool value _ => return boolText value
  | .name name _ => return name
  | .binary left op right _ => do
    let leftCode ← emitExpr left
    let rightCode ← emitExpr right
    return "(" ++ leftCode ++ " " ++ op ++ " " ++ rightCode ++ ")"
  | .unary op operand _ => do
    let code ← emitExpr operand
    return "(" ++ op ++ code ++ ")"
  | .call (.name name _) args _ => do
    namedCallCode name (← emitExprs args)
  | .call callee args _ => do
    let calleeCode ← emitExpr callee
    let argCodes ← emitExprs args
    return calleeCode ++ "(" ++ commaList argCodes ++ ")"
  | .field object field _ => do
    let code ← emitExpr object
    return code ++ "." ++ field
  | .propagate operand _ => do
    let code ← emitExpr operand
    return "(" ++ code ++ ").value"
  | .list elements _ => do
    let codes ← emitExprs elements
    return "[" ++ commaList codes ++ "]"
  | .matching subject arms _ => do
    let subjectCode ← emitExpr subject
    let temp := "__match_" ++ toString (← fresh)
    let choice ← emitArms temp arms
    return "((lambda " ++ temp ++ ": " ++ choice ++ ")(" ++ subjectCode ++ "))"
  | .stmt s => fail (.unknownExpr s.kindName)
  | .unknown => fail (.unknownExpr "Expr")

def emitExprs : List Expr → EmitM (List String)
  | [] => return []
  | e :: es => do
    let first ← emitExpr e
    return first :: (← emitExprs es)

/-- A choice between arms; the last one is taken without a test. -/
def emitArms (temp : String) : List Arm → EmitM String
  | [] => return "None"
  | [⟨pattern, body, _⟩] => do
    return pattern.bind temp (← emitExpr body)
  | ⟨pattern, body, _⟩ :: arms => do
    let first := pattern.bind temp (← emitExpr body)
    let rest ← emitArms temp arms
    return "(" ++ first ++ " if " ++ pattern.test temp ++ " else " ++ rest ++ ")"

end

/-! ### Statements -/

/-- A value that returns early if it is a failure; `after` says what is done with the success. -/
def emitGuarded (operand : Expr) (after : String → List Code) : EmitM (List Code) := do
  let temp := "__try_" ++ toString (← fresh)
  let code ← emitExpr operand
  return .assign temp code ::
    .branch ("isinstance(" ++ temp ++ ", Err)") [.ret (some temp)] [] :: after temp

mutual

/-- The code of a statement.  Where its value is used it is returned. -/
def emitStmt (use : Use) : Stmt → EmitM (List Code)
  | .letVar name (.propagate operand _) _ _ _ =>
    emitGuarded operand fun temp => [.assign name (temp ++ ".value")]
  | .letVar name value _ _ _ => do
    return [.assign name (← emitExpr value)]
  | .assign name value _ => do
    return [.assign name (← emitExpr value)]
  | .expr e _ =>
    match use, e with
    | .value, e => do return [.ret (some (← emitExpr e))]
    | .effect, .propagate operand _ => emitGuarded operand fun _ => []
    | .effect, e => do return [.eval (← emitExpr e)]
  | .ret none _ => return [.ret none]
  | .ret (some (.propagate operand _)) _ =>
    emitGuarded operand fun temp => [.ret (some (temp ++ ".value"))]
  | .ret (some value) _ => do
    return [.ret (some (← emitExpr value))]
  | .whileLoop condition body _ => do
    let code ← emitExpr condition
    return [.whileLoop code (Code.suite (← nested (emitBlock .effect body)))]
  | .forLoop item collection body _ => do
    let code ← emitExpr collection
    return [.forLoop item code (Code.suite (← nested (emitBlock .effect body)))]
  | .loop body _ => do
    return [.whileLoop "True" (Code.suite (← nested (emitBlock .effect body)))]
  | .breakLoop _ => return [.breakLoop]
  | .continueLoop _ => return [.continueLoop]
  | .ifElse condition thenBody elseBody? _ => do
    let code ← emitExpr condition
    let thenCode ← nested (emitBlock use thenBody)
    let thenCode := match use with
      | .value => Code.suite thenCode
      | .effect => thenCode
    match elseBody? with
    | none => return [.branch code thenCode []]
    | some elseBody => do
      return [.branch code thenCode (← nested (emitBlock use elseBody))]
  | .fn _ => fail (.unknownStmt "FnDecl")
  | .bare e => fail (.unknownStmt e.kindName)
  | .unknown => fail (.unknownStmt "Stmt")

/-- The code of statements, of which only the last can be used for its value. -/
def emitBlock (use : Use) : List Stmt → EmitM (List Code)
  | [] => return []
  | [s] => emitStmt use s
  | s :: rest => do
    let first ← emitStmt .effect s
    return first ++ (← emitBlock use rest)

end

/-! ### Programs -/

def emitFn (f : FnDecl) : EmitM CodeFn := do
  let body ← nested (emitBlock .value f.body)
  return ⟨f.name, f.params.map Param.name, Code.suite body⟩

/-- A name with its alias; an empty alias counts as none. -/
def aliasedCode (name : String) : Option String → String
  | some short => if short.isEmpty then name else name ++ " as " ++ short
  | none => name

def Import.code : Import → String
  | .whole module alias? _ => "import " ++ aliasedCode module alias?
  | .names module pairs _ =>
    "from " ++ module ++ " import " ++
      commaList (pairs.map fun (name, alias?) => aliasedCode name alias?)
  | .stmt _ => ""

def emitProgram (p : Program) : EmitM CodeFile := do
  let functions ← p.functions.mapM emitFn
  let statements ← emitBlock .effect p.statements
  return ⟨p.usesResult, p.imports.map Import.code, functions, statements⟩

/-- What emission keeps from one program to the next. -/
structure Emitter where
  /-- How deep statements are laid out. -/
  depth : Nat := 0
  /-- The next number for a name. -/
  counter : Nat := 0
deriving DecidableEq, Repr, Inhabited

namespace Emitter

/-- Emits a program.  A failure leaves the emitter as deep as it happened. -/
def emit (e : Emitter) (p : Program) : Except EmitFault String × Emitter :=
  match emitProgram p e.counter with
  | (.ok file, counter) => (.ok (file.text e.depth), ⟨e.depth, counter⟩)
  | (.error f, counter) => (.error f.fault, ⟨e.depth + f.depth, counter⟩)

end Emitter

def Program.emit (p : Program) : Except EmitFault String :=
  (Emitter.emit {} p).1

theorem Program.emit_eq (p : Program) :
    p.emit = match (emitProgram p 0).1 with
      | .ok file => .ok (file.text 0)
      | .error f => .error f.fault := by
  rw [Program.emit, Emitter.emit]
  cases emitProgram p 0 with
  | mk outcome n => cases outcome <;> rfl

theorem Program.of_emit_eq_ok {p : Program} {text : String} (h : p.emit = .ok text) :
    ∃ (file : CodeFile) (n : Nat), emitProgram p 0 = (.ok file, n) ∧ text = file.text 0 := by
  rw [Program.emit_eq] at h
  cases hrun : emitProgram p 0 with
  | mk outcome n =>
    rw [hrun] at h
    cases outcome with
    | ok file =>
      cases h
      exact ⟨file, n, rfl, rfl⟩
    | error f => cases h

end Owl
