/-
Emitting code does not depend on places.
-/
import Owl.Code.Emit
import Owl.Proofs.Layout.Trees

namespace Owl

/-! ### The classes of results -/

mutual

@[simp] theorem Expr.strip_kindName : ∀ e : Expr, e.strip.kindName = e.kindName
  | .stmt s => Stmt.strip_kindName s
  | .int .. | .float .. | .string .. | .bool .. | .name .. | .binary .. | .unary .. | .call ..
  | .field .. | .propagate .. | .list .. | .matching .. | .unknown => rfl

@[simp] theorem Stmt.strip_kindName : ∀ s : Stmt, s.strip.kindName = s.kindName
  | .bare e => Expr.strip_kindName e
  | .ret none _ | .ret (some _) _ | .ifElse _ _ none _ | .ifElse _ _ (some _) _ | .letVar ..
  | .assign .. | .expr .. | .whileLoop .. | .forLoop .. | .loop .. | .breakLoop _
  | .continueLoop _ | .fn _ | .unknown => rfl

end

@[simp] theorem Expr.strip_isResultName (e : Expr) : e.strip.isResultName = e.isResultName := by
  cases e <;> rfl

mutual

@[simp] theorem Expr.strip_usesResult : ∀ e : Expr, e.strip.usesResult = e.usesResult
  | .call callee args _ => by
    simp [Expr.strip, Expr.usesResult, Expr.strip_usesResult callee, anyUsesResult_strip args]
  | .binary left _ right _ => by
    simp only [Expr.strip, Expr.usesResult, Expr.strip_usesResult left,
      Expr.strip_usesResult right]
  | .unary _ operand _ | .field operand _ _ => by
    simp only [Expr.strip, Expr.usesResult, Expr.strip_usesResult operand]
  | .int .. | .float .. | .string .. | .bool .. | .name .. | .propagate .. | .list ..
  | .matching .. | .stmt _ | .unknown => by simp only [Expr.strip, Expr.usesResult]

@[simp] theorem anyUsesResult_strip :
    ∀ es : List Expr, anyUsesResult (stripExprs es) = anyUsesResult es
  | [] => rfl
  | e :: es => by
    simp only [stripExprs, anyUsesResult, Expr.strip_usesResult e, anyUsesResult_strip es]

end

mutual

@[simp] theorem Stmt.strip_usesResult : ∀ s : Stmt, s.strip.usesResult = s.usesResult
  | .whileLoop _ body _ | .ifElse _ body none _ => by
    simp [Stmt.strip, Stmt.usesResult, blockUsesResult_strip body]
  | .ifElse _ thenBody (some elseBody) _ => by
    simp [Stmt.strip, Stmt.usesResult, blockUsesResult_strip thenBody, blockUsesResult_strip
      elseBody]
  | .letVar .. | .assign .. | .expr .. | .ret none _ | .ret (some _) _ | .forLoop .. | .loop ..
  | .breakLoop _ | .continueLoop _ | .fn _ | .bare _ | .unknown => by
    simp [Stmt.strip, Stmt.usesResult]

@[simp] theorem blockUsesResult_strip :
    ∀ ss : List Stmt, blockUsesResult (stripStmts ss) = blockUsesResult ss
  | [] => rfl
  | s :: rest => by
    simp only [stripStmts, blockUsesResult, Stmt.strip_usesResult s, blockUsesResult_strip rest]

end

/-! ### Values -/

@[simp] theorem Pattern.strip_test (temp : String) (p : Pattern) :
    p.strip.test temp = p.test temp := by
  cases p <;> rfl

@[simp] theorem Pattern.strip_bind (temp body : String) (p : Pattern) :
    p.strip.bind temp body = p.bind temp body := by
  cases p <;> rfl

mutual

theorem emitExpr_strip : ∀ e : Expr, emitExpr e.strip = emitExpr e
  | .binary left _ right _ => by
    simp only [Expr.strip, emitExpr, emitExpr_strip left, emitExpr_strip right]
  | .unary _ operand _ | .field operand _ _ | .propagate operand _ => by
    simp only [Expr.strip, emitExpr, emitExpr_strip operand]
  | .list elements _ => by simp only [Expr.strip, emitExpr, emitExprs_strip elements]
  | .matching subject arms _ => by
    simp only [Expr.strip, emitExpr, emitExpr_strip subject, emitArms_strip _ arms]
  | .call callee args _ => by
    have hcallee := emitExpr_strip callee
    have hargs := emitExprs_strip args
    -- a call of a name is written by another rule than any other call
    cases callee <;> simp only [Expr.strip, emitExpr, hargs] at hcallee ⊢ <;> simp only [hcallee]
  | .stmt s => by simp [Expr.strip, emitExpr]
  | .int .. | .float .. | .string .. | .bool .. | .name .. | .unknown => by
    simp only [Expr.strip, emitExpr]

theorem emitExprs_strip : ∀ es : List Expr, emitExprs (stripExprs es) = emitExprs es
  | [] => rfl
  | e :: es => by simp only [stripExprs, emitExprs, emitExpr_strip e, emitExprs_strip es]

theorem emitArms_strip (temp : String) :
    ∀ arms : List Arm, emitArms temp (stripArms arms) = emitArms temp arms
  | [] => rfl
  | [⟨_, body, _⟩] => by simp [stripArms, emitArms, emitExpr_strip body]
  | ⟨_, body, _⟩ :: arm :: arms => by
    have hrest := emitArms_strip temp (arm :: arms)
    obtain ⟨pattern', body', span?'⟩ := arm
    simp only [stripArms] at hrest ⊢
    simp [emitArms, emitExpr_strip body, hrest]

end

/-! ### Statements -/

@[simp] theorem emitGuarded_strip (operand : Expr) (after : String → List Code) :
    emitGuarded operand.strip after = emitGuarded operand after := by
  rw [emitGuarded, emitGuarded, emitExpr_strip]

/-- A `?` that is the whole value of a statement is emitted by another rule than any other value. -/
theorem emitLet_strip (use : Use) (name : String) (value : Expr) (type? : Option TypeExpr)
    (isMutable : Bool) (span? : Option Span) :
    emitStmt use (Stmt.letVar name value type? isMutable span?).strip =
      emitStmt use (.letVar name value type? isMutable span?) := by
  have hvalue := emitExpr_strip value
  cases value <;> simp only [Stmt.strip, Expr.strip, emitStmt, emitGuarded_strip] at hvalue ⊢ <;>
    simp only [hvalue]

theorem emitExprStmt_strip (use : Use) (e : Expr) (span? : Option Span) :
    emitStmt use (Stmt.expr e span?).strip = emitStmt use (.expr e span?) := by
  have he := emitExpr_strip e
  cases use <;> cases e <;>
    simp only [Stmt.strip, Expr.strip, emitStmt, emitGuarded_strip] at he ⊢ <;>
    simp only [he]

theorem emitReturn_strip (use : Use) (value : Expr) (span? : Option Span) :
    emitStmt use (Stmt.ret (some value) span?).strip = emitStmt use (.ret (some value) span?) := by
  have hvalue := emitExpr_strip value
  cases value <;> simp only [Stmt.strip, Expr.strip, emitStmt, emitGuarded_strip] at hvalue ⊢ <;>
    simp only [hvalue]

mutual

theorem emitStmt_strip (use : Use) : ∀ s : Stmt, emitStmt use s.strip = emitStmt use s
  | .letVar name value type? isMutable span? => emitLet_strip use name value type? isMutable span?
  | .expr e span? => emitExprStmt_strip use e span?
  | .ret (some value) span? => emitReturn_strip use value span?
  | .assign _ value _ => by simp only [Stmt.strip, emitStmt, emitExpr_strip]
  | .whileLoop _ body _ | .forLoop _ _ body _ | .loop body _ => by
    simp only [Stmt.strip, emitStmt, emitExpr_strip, emitBlock_strip _ body]
  | .ifElse _ thenBody none _ => by
    simp only [Stmt.strip, emitStmt, emitExpr_strip, emitBlock_strip _ thenBody]
  | .ifElse _ thenBody (some elseBody) _ => by
    simp only [Stmt.strip, emitStmt, emitExpr_strip, emitBlock_strip _ thenBody,
      emitBlock_strip _ elseBody]
  | .bare e => by simp [Stmt.strip, emitStmt]
  | .ret none _ | .breakLoop _ | .continueLoop _ | .fn _ | .unknown => by
    simp only [Stmt.strip, emitStmt]

theorem emitBlock_strip (use : Use) :
    ∀ ss : List Stmt, emitBlock use (stripStmts ss) = emitBlock use ss
  | [] => rfl
  | [s] => by simp only [stripStmts, emitBlock, emitStmt_strip use s]
  | s :: s' :: rest => by
    have hrest := emitBlock_strip use (s' :: rest)
    simp only [stripStmts] at hrest ⊢
    simp only [emitBlock, emitStmt_strip .effect s, hrest]

end

/-! ### Programs -/

theorem emitFn_strip (f : FnDecl) : emitFn f.strip = emitFn f := by
  obtain ⟨name, params, body, returns?, span?⟩ := f
  have hparams : (params.map Param.strip).map Param.name = params.map Param.name := by
    simp [Param.strip, Function.comp_def]
  simp only [FnDecl.strip, emitFn, emitBlock_strip, hparams]

theorem Import.strip_code (i : Import) : i.strip.code = i.code := by
  cases i <;> rfl

theorem Program.strip_usesResult (p : Program) : p.strip.usesResult = p.usesResult := by
  have hbody : ∀ f : FnDecl, blockUsesResult f.strip.body = blockUsesResult f.body := by
    rintro ⟨name, params, body, returns?, span?⟩
    exact blockUsesResult_strip body
  simp [Program.usesResult, Program.strip, Function.comp_def, hbody]

theorem mapM_emitFn_strip (fs : List FnDecl) :
    (fs.map FnDecl.strip).mapM emitFn = fs.mapM emitFn := by
  induction fs with
  | nil => rfl
  | cons f fs ih => rw [List.map_cons, List.mapM_cons, List.mapM_cons, emitFn_strip, ih]

theorem emitProgram_strip (p : Program) : emitProgram p.strip = emitProgram p := by
  have himports : (p.imports.map Import.strip).map Import.code = p.imports.map Import.code := by
    simp [Function.comp_def, Import.strip_code]
  have hfunctions : p.strip.functions.mapM emitFn = p.functions.mapM emitFn :=
    mapM_emitFn_strip p.functions
  have hstatements : emitBlock .effect p.strip.statements = emitBlock .effect p.statements :=
    emitBlock_strip .effect p.statements
  rw [emitProgram, emitProgram, hfunctions, hstatements, Program.strip_usesResult]
  simp only [Program.strip, himports]

/-- A program and its stripped form have the same code. -/
theorem Program.emit_strip (p : Program) : p.strip.emit = p.emit := by
  rw [Program.emit, Program.emit, Emitter.emit, Emitter.emit, emitProgram_strip]

end Owl
