/-
Trees without places.

`strip` takes the spans out of a tree.  Two trees that differ only in their spans
strip to the same tree, and what a tree is like as far as its shape goes can be
told from its stripped form.
-/
import Owl.Check

namespace Owl

/-! ### Stripping -/

mutual

def TypeExpr.strip : TypeExpr → TypeExpr
  | .mk name params _ => .mk name (stripTypes params) none

def stripTypes : List TypeExpr → List TypeExpr
  | [] => []
  | t :: ts => t.strip :: stripTypes ts

end

def Param.strip (p : Param) : Param :=
  ⟨p.name, p.type?.map TypeExpr.strip, none⟩

def Pattern.strip : Pattern → Pattern
  | some binding _ => some binding Option.none
  | none _ => none Option.none
  | ok binding _ => ok binding Option.none
  | err binding _ => err binding Option.none
  | unknown => unknown

mutual

@[simp] def Expr.strip : Expr → Expr
  | .int value _ => .int value none
  | .float value _ => .float value none
  | .string value _ => .string value none
  | .bool value _ => .bool value none
  | .name name _ => .name name none
  | .binary left op right _ => .binary left.strip op right.strip none
  | .unary op operand _ => .unary op operand.strip none
  | .call callee args _ => .call callee.strip (stripExprs args) none
  | .field object field _ => .field object.strip field none
  | .propagate operand _ => .propagate operand.strip none
  | .list elements _ => .list (stripExprs elements) none
  | .matching subject arms _ => .matching subject.strip (stripArms arms) none
  | .stmt s => .stmt s.strip
  | .unknown => .unknown

def stripExprs : List Expr → List Expr
  | [] => []
  | e :: es => e.strip :: stripExprs es

def stripArms : List Arm → List Arm
  | [] => []
  | ⟨pattern, body, _⟩ :: arms => ⟨pattern.strip, body.strip, none⟩ :: stripArms arms

@[simp] def Stmt.strip : Stmt → Stmt
  | .letVar name value type? isMutable _ =>
    .letVar name value.strip (type?.map TypeExpr.strip) isMutable none
  | .assign name value _ => .assign name value.strip none
  | .expr e _ => .expr e.strip none
  | .ret none _ => .ret none none
  | .ret (some value) _ => .ret (some value.strip) none
  | .whileLoop condition body _ => .whileLoop condition.strip (stripStmts body) none
  | .forLoop item collection body _ => .forLoop item collection.strip (stripStmts body) none
  | .loop body _ => .loop (stripStmts body) none
  | .breakLoop _ => .breakLoop none
  | .continueLoop _ => .continueLoop none
  | .ifElse condition thenBody none _ => .ifElse condition.strip (stripStmts thenBody) none none
  | .ifElse condition thenBody (some elseBody) _ =>
    .ifElse condition.strip (stripStmts thenBody) (some (stripStmts elseBody)) none
  | .fn decl => .fn decl.strip
  | .bare e => .bare e.strip
  | .unknown => .unknown

def stripStmts : List Stmt → List Stmt
  | [] => []
  | s :: rest => s.strip :: stripStmts rest

def FnDecl.strip : FnDecl → FnDecl
  | ⟨name, params, body, returns?, _⟩ =>
    ⟨name, params.map Param.strip, stripStmts body, returns?.map TypeExpr.strip, none⟩

end

def Arm.strip (a : Arm) : Arm := ⟨a.pattern.strip, a.body.strip, none⟩

def Import.strip : Import → Import
  | .whole module alias? _ => .whole module alias? none
  | .names module pairs _ => .names module pairs none
  | .stmt s => .stmt s.strip

def Program.strip (p : Program) : Program where
  imports := p.imports.map Import.strip
  functions := p.functions.map FnDecl.strip
  statements := stripStmts p.statements

/-- A walk over a list that does the same to each of its elements is a map. -/
theorem eq_map_of_walk {α β : Type} {walk : List α → List β} {f : α → β} (nil : walk [] = [])
    (cons : ∀ a as, walk (a :: as) = f a :: walk as) (as : List α) : walk as = as.map f := by
  induction as with
  | nil => exact nil
  | cons a as ih => rw [cons, ih, List.map_cons]

theorem stripTypes_eq_map : ∀ ts : List TypeExpr, stripTypes ts = ts.map TypeExpr.strip :=
  eq_map_of_walk rfl fun _ _ => rfl

theorem stripExprs_eq_map : ∀ es : List Expr, stripExprs es = es.map Expr.strip :=
  eq_map_of_walk rfl fun _ _ => rfl

theorem stripStmts_eq_map : ∀ ss : List Stmt, stripStmts ss = ss.map Stmt.strip :=
  eq_map_of_walk rfl fun _ _ => rfl

theorem stripArms_eq_map : ∀ arms : List Arm, stripArms arms = arms.map Arm.strip :=
  eq_map_of_walk rfl fun ⟨_, _, _⟩ _ => rfl

/-! ### Shapes -/

/-- What is asked of a tree, and not of its places, can be asked of the stripped tree. -/
@[simp] theorem Pattern.strip_name (p : Pattern) : p.strip.name = p.name := by
  cases p <;> rfl

mutual

@[simp] theorem Stmt.strip_returns : ∀ s : Stmt, s.strip.returns = s.returns
  | .ifElse _ thenBody (some elseBody) _ => by
    simp only [Stmt.strip, Stmt.returns, anyReturns_strip thenBody, anyReturns_strip elseBody]
  | .ifElse _ _ none _ | .letVar .. | .assign .. | .expr .. | .ret none _ | .ret (some _) _
  | .whileLoop .. | .forLoop .. | .loop .. | .breakLoop _ | .continueLoop _ | .fn _ | .bare _
  | .unknown => rfl

@[simp] theorem anyReturns_strip : ∀ ss : List Stmt, anyReturns (stripStmts ss) = anyReturns ss
  | [] => rfl
  | s :: rest => by
    rw [stripStmts, anyReturns, anyReturns, Stmt.strip_returns s, anyReturns_strip rest]

end

mutual

@[simp] theorem Stmt.strip_hasExit : ∀ s : Stmt, s.strip.hasExit = s.hasExit
  | .ifElse _ thenBody none _ => by
    simp only [Stmt.strip, Stmt.hasExit, anyExit_strip thenBody]
  | .ifElse _ thenBody (some elseBody) _ => by
    simp only [Stmt.strip, Stmt.hasExit, anyExit_strip thenBody, anyExit_strip elseBody]
  | .whileLoop _ body _ | .forLoop _ _ body _ | .loop body _ => by
    simp only [Stmt.strip, Stmt.hasExit, anyExit_strip body]
  | .letVar .. | .assign .. | .expr .. | .ret none _ | .ret (some _) _ | .breakLoop _
  | .continueLoop _ | .fn _ | .bare _ | .unknown => rfl

@[simp] theorem anyExit_strip : ∀ ss : List Stmt, anyExit (stripStmts ss) = anyExit ss
  | [] => rfl
  | s :: rest => by
    rw [stripStmts, anyExit, anyExit, Stmt.strip_hasExit s, anyExit_strip rest]

end

@[simp] theorem Stmt.strip_isChoice (s : Stmt) : s.strip.isChoice = s.isChoice := by
  fun_cases Stmt.strip s <;> rfl

@[simp] theorem Stmt.strip_lacksElse (s : Stmt) : s.strip.lacksElse = s.lacksElse := by
  fun_cases Stmt.strip s <;> try rfl
  simp [Stmt.lacksElse, stripStmts_eq_map]

/-- For a statement that stands as an expression, its own missing `else` counts. -/
@[simp] theorem Stmt.strip_lacksPath (s : Stmt) : s.strip.lacksPath = s.lacksPath := by
  cases s with
  | expr e _ =>
    cases e with
    | stmt s => exact Stmt.strip_lacksElse s
    | _ => rfl
  | ret value? _ => cases value? <;> rfl
  | ifElse condition thenBody elseBody? _ =>
    have h := Stmt.strip_lacksElse (.ifElse condition thenBody elseBody? none)
    cases elseBody? <;> exact h
  | _ => rfl

@[simp] theorem Stmt.strip_givesValue (s : Stmt) : s.strip.givesValue = s.givesValue := by
  fun_cases Stmt.strip s <;> rfl

end Owl
