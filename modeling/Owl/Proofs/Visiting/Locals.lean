/-
The variables that a program declares.

A check comes to the declarations of variables in an order of its own.  Between
them it does nothing that has to do with written types, and it changes no variable
but by marking names as used that the tree mentions.

* `Stmt.Read.declares`, `checkBody_declares` — what the check of what was read declares;
* `CheckM.Declares.tracks` — scopes along a check.
-/
import Owl.Proofs.Checking.Tracking
import Owl.Proofs.Failing.Compiling
import Owl.Proofs.Visiting.Reports

namespace Owl

open Checker CheckM Owl.Parser

/-! ### Variables of trees -/

/-- A variable that a function declares, as a parameter or by a statement. -/
structure Local where
  name : String
  type? : Option TypeExpr
  span? : Option Span
  isParam : Bool := false
  /-- Whether it stands in a loop over a collection, whose body is a scope for the check. -/
  inFor : Bool := false
deriving Repr

def Local.buried (l : Local) : Local := { l with inFor := true }

def Param.local (p : Param) : Local := { p with isParam := true }

mutual

/-- The variables that a statement declares, in the order in which they are checked. -/
def Stmt.locals (use : Use) : Stmt → List Local
  | .letVar name _ type? _ span? => [{ name, type?, span? }]
  | .whileLoop _ body _ | .loop body _ => stmtsLocals body
  | .forLoop _ _ body _ => (stmtsLocals body).map Local.buried
  | .ifElse _ thenBody none _ =>
    match use with
    | .value => lastLocals thenBody ++ initLocals thenBody
    | .effect => stmtsLocals thenBody
  | .ifElse _ thenBody (some elseBody) _ =>
    match use with
    | .value => (lastLocals thenBody ++ initLocals thenBody) ++
        (lastLocals elseBody ++ initLocals elseBody)
    | .effect => stmtsLocals thenBody ++ stmtsLocals elseBody
  | .assign .. | .expr .. | .ret .. | .breakLoop _ | .continueLoop _ | .fn _ | .bare _
  | .unknown => []

def stmtsLocals : List Stmt → List Local
  | [] => []
  | s :: rest => s.locals .effect ++ stmtsLocals rest

def lastLocals : List Stmt → List Local
  | [] => []
  | [s] => s.locals .value
  | _ :: rest => lastLocals rest

def initLocals : List Stmt → List Local
  | [] => []
  | [_] => []
  | s :: rest => s.locals .effect ++ initLocals rest

end

def FnDecl.locals (fn : FnDecl) : List Local :=
  fn.params.map Param.local ++ fn.body.flatMap (Stmt.locals .value)

variable {file : String}

/-! ### Declarations along a check -/

namespace CheckM

/-- The action goes through the events, and declares just the variables, none of whose types has a
place.  It reads no other written types. -/
inductive Declares : {α : Type} → List Event → List Local → CheckM α → Prop
  | quiet {α : Type} {es : List Event} {s : Multiset Site} {p q : CheckM α}
    (hp : Walks True True (untyped True) es s p q) : Declares es [] p
  | bind {α β : Type} {es es' : List Event} {ls ls' : List Local} {p : CheckM α} {f : α → CheckM β}
    (hp : Declares es ls p) (hf : ∀ a, Declares es' ls' (f a)) :
    Declares (es ++ es') (ls ++ ls') (p >>= f)
  | letVar (name : String) (value : Ty) {type? : Option TypeExpr} (isMutable : Bool)
    (span? : Option Span) (htype : ∀ ty ∈ type?, ty.Unplaced) :
    Declares [.declare name isMutable] [{ name, type?, span? }]
      (letRule name value type? isMutable span?)
  | param {p : Param} (hp : p.Unplaced) :
    Declares [.declare p.name false] [p.local] (defineParam p)
  /-- What is to be returned is known behind the parameters. -/
  | returns (f : Checker → Option Ty) :
    Declares [] [] (modify fun c => { c with returns? := f c } : CheckM Unit)
  | loop {α : Type} {es : List Event} {ls : List Local} {p : CheckM α} (hp : Declares es ls p) :
    Declares es ls (inLoop p)
  | forEach {es : List Event} {ls : List Local} {body : CheckM Unit} (item : String) (element : Ty)
    (span? : Option Span) (hbody : Declares es ls body) :
    Declares (bracket (.declare item false :: es)) (ls.map Local.buried)
      (forRule item element body span?)

namespace Declares

variable {α β : Type} {es es' : List Event} {ls ls' : List Local} {p : CheckM α}

theorem pure (a : α) : Declares [] [] (Pure.pure a) := .quiet (s := 0) (.pure a)

theorem bind_quiet {f : α → CheckM β} (hp : Declares es ls p) (hf : ∀ a, Declares [] [] (f a)) :
    Declares es ls (p >>= f) := by
  simpa only [List.append_nil] using hp.bind hf

theorem map (hp : Declares es ls p) (g : α → β) : Declares es ls (p >>= fun a => Pure.pure (g a)) :=
  hp.bind_quiet fun a => .pure (g a)

theorem bracketed (h : Declares es ls p) : Bracketed true es := by
  induction h with
  | quiet hp => exact hp.bracketed trivial
  | @bind _ _ _ _ _ _ p _ _ _ ihp ihf => exact ihp.append (ihf (p default).1)
  | letVar | param => exact .declare .nil
  | returns => exact .nil
  | loop _ ih => exact ih
  | forEach _ _ _ _ ih => exact .bracket (.declare ih)

/-- Scopes along a check are told by its events. -/
theorem tracks {T : List Event → Env → Env → Prop} (hT : Env.Tracking T) (h : Declares es ls p)
    (c : Checker) : T es c.env (p c).2.env := by
  induction h generalizing c with
  | quiet hp => exact hp.tracks hT c
  | bind hp _ ihp ihf => exact hT.trans hp.bracketed (ihp c) (ihf _ _)
  | letVar name value isMutable span? =>
    exact (@letRule_walks True False name value _ isMutable span?).tracks hT c
  | @param p => exact (@defineParam_walks True False p).tracks hT c
  | returns => exact hT.skip .nil _
  | loop _ ih => exact ih { c with loopDepth := c.loopDepth + 1 }
  | forEach item element span? hbody ih =>
    have hinside := hT.trans (.declare .nil)
      (hT.declare c.env.push item { type := element, span? })
      (ih { c with env := c.env.push.defineVar item { type := element, span? },
                   loopDepth := c.loopDepth + 1 })
    exact hT.scope (.declare hbody.bracketed) (hT.markUsed hinside (List.mem_cons_self ..))

end Declares

end CheckM

theorem Expr.Read.declares {e : Expr} {us : List Token} (h : e.Read file us) :
    Declares (e.events .checked) [] (checkExpr e) :=
  .quiet (checkExpr_walks e fun _ => h.ordinary)

theorem Expr.Read.declares_condition {condition : Expr} {us : List Token}
    (h : condition.Read file us) :
    Declares (condition.events .checked) [] (conditionRule condition (checkExpr condition)) :=
  .quiet (conditionRule_walks (untyped_of_ne nofun) condition
    (checkExpr_walks condition fun _ => h.ordinary))

/-- The check of a statement declares its variables, whatever the statement is used for. -/
def Stmt.Declares (s : Stmt) : Prop :=
  ∀ use, CheckM.Declares (s.events .checked use) (s.locals use) (checkStmt use s)

section Blocks

variable {ss : List Stmt} (h : ∀ s ∈ ss, s.Declares)
include h

theorem stmts_declare : Declares (stmtsEvents .checked ss) (stmtsLocals ss) (checkStmts ss) := by
  induction ss with
  | nil =>
    exact .pure _
  | cons s rest ih =>
    obtain ⟨hfirst, hmore⟩ := List.forall_mem_cons.mp h
    exact (hfirst .effect).bind fun _ => ih hmore

theorem last_declares : Declares (lastEvents .checked ss) (lastLocals ss) (checkLast ss) := by
  induction ss with
  | nil =>
    exact .pure _
  | cons s rest ih =>
    obtain ⟨hfirst, hmore⟩ := List.forall_mem_cons.mp h
    cases rest with
    | nil =>
      exact hfirst .value
    | cons => exact ih hmore

theorem init_declares : Declares (initEvents .checked ss) (initLocals ss) (checkInit ss) := by
  induction ss with
  | nil =>
    exact .pure _
  | cons s rest ih =>
    obtain ⟨hfirst, hmore⟩ := List.forall_mem_cons.mp h
    cases rest with
    | nil =>
      exact .pure _
    | cons => exact (hfirst .effect).bind fun _ => ih hmore

theorem branch_declares : Declares (lastEvents .checked ss ++ initEvents .checked ss)
    (lastLocals ss ++ initLocals ss) (branchRule (checkLast ss) (checkInit ss)) :=
  (last_declares h).bind fun _ => (init_declares h).map _

end Blocks

theorem ifElse_declares {condition : Expr} {us : List Token} (hcondition : condition.Read file us)
    {thenBody elseBody : List Stmt} (hthen : ∀ s ∈ thenBody, s.Declares)
    (helse : ∀ s ∈ elseBody, s.Declares) (span? : Option Span) :
    (Stmt.ifElse condition thenBody (some elseBody) span?).Declares := by
  intro use
  cases use with
  | effect =>
    refine hcondition.declares_condition.bind fun _ => (stmts_declare hthen).bind fun _ => ?_
    exact (stmts_declare helse).map _
  | value =>
    -- An `else` without statements is taken for none.
    cases elseBody with
    | nil =>
      simp only [Stmt.events, Stmt.locals, checkStmt, Scoping.block, lastEvents, initEvents,
        lastLocals, initLocals]
      exact hcondition.declares_condition.bind fun _ => (branch_declares hthen).bind fun _ => .pure _
    | cons s rest =>
      refine hcondition.declares_condition.bind fun _ => (branch_declares hthen).bind fun _ => ?_
      exact (branch_declares helse).bind_quiet fun _ => .quiet (choiceRule_walks _ _ _).quiet

mutual

/-- The check of a statement that was read declares its variables. -/
theorem Stmt.Read.declares : ∀ {s : Stmt} {us : List Token}, s.Read file us → s.Declares
  | _, _, .letVar _ name isMutable htype hvalue => fun use => by
    exact hvalue.declares.bind fun type => (Declares.letVar name.text type isMutable _ htype).map _
  | _, _, .assign name hvalue => fun use => by
    exact .quiet ((Walks.assign (untyped_of_ne nofun) (untyped_of_ne nofun) name.text _ .dummy
      (checkExpr_walks _ fun _ => hvalue.ordinary)
      fun _ => Expr.events_closed _ _ hvalue.ordinary).map _)
  | _, _, .expr he => fun use => by
    exact he.declares
  | _, _, .ret keyword => fun use => by
    exact .pure _
  | _, _, .retValue keyword hvalue => fun use => by
    exact hvalue.declares.bind_quiet fun _ => .quiet ((returnRule_walks ..).quiet.map _)
  | _, _, .whileLoop _ hcondition hbody => fun use => by
    refine hcondition.declares_condition.bind fun _ => ?_
    exact (stmts_declare (parts_declare hbody)).loop.map _
  | _, _, .forLoop _ item hcollection hbody => fun use => by
    simp only [Stmt.events, Stmt.locals, checkStmt]
    have helement (type : Ty) (place : Span) : Declares [] [] (elementRule type place) :=
      .quiet (elementRule_walks type place place).quiet
    refine hcollection.declares.bind fun type => (helement type _).bind fun element => ?_
    exact ((stmts_declare (parts_declare hbody)).forEach item.text element _).map _
  | _, _, .loop _ hbody => fun use => by
    simp only [Stmt.events, Stmt.locals, checkStmt, Scoping.block]
    have hwarn (place : Span) : Walks True True (untyped True) []
        {⟨.endless, some place.start⟩} (warn .loopWithoutExit (some place))
        (warn .loopWithoutExit (some place)) := .warnSite rfl rfl
    refine (stmts_declare (parts_declare hbody)).loop.bind_quiet fun _ => ?_
    exact .quiet (.ite (.pure _) ((hwarn _).map _))
  | _, _, .breakLoop _ | _, _, .continueLoop _ => fun use => by
    refine .quiet (.map (loopOnlyRule_walks ?_ _) _)
    exact untyped_of_ne nofun
  | _, _, .ifThen _ hcondition hthen => fun use => by
    have hdeclares := parts_declare hthen
    cases use with
    | effect =>
      exact hcondition.declares_condition.bind fun _ => (stmts_declare hdeclares).map _
    | value =>
      exact hcondition.declares_condition.bind fun _ => (branch_declares hdeclares).map _
  | _, _, .ifElse _ hcondition hthen helse =>
    ifElse_declares hcondition (parts_declare hthen) (parts_declare helse) _

theorem parts_declare : ∀ {ss : List Stmt} {us : List Token}, Parts (Stmt.Read file) ss us →
    ∀ s ∈ ss, s.Declares
  | _, _, .nil => List.forall_mem_nil _
  | _, _, .cons hfirst hmore => List.forall_mem_cons.mpr ⟨hfirst.declares, parts_declare hmore⟩

end

theorem checkBodyStmt_declares (isLast : Bool) {s : Stmt} {us : List Token} (h : s.Read file us) :
    Declares (s.events .checked .value) (s.locals .value) (checkBodyStmt isLast s) := by
  have hdeclares := h.declares .value
  cases h with
  | @expr e us he =>
    exact hdeclares.bind_quiet fun type => .quiet (ignoredExpr_walks isLast e type).quiet
  | _ => exact hdeclares.map _

theorem checkBody_declares {ss : List Stmt} {us : List Token} (h : Parts (Stmt.Read file) ss us)
    (returned : Bool) : Declares (bodyEvents .checked ss) (ss.flatMap (Stmt.locals .value))
      (checkBody returned ss) := by
  induction h generalizing returned with
  | nil => exact .pure _
  | @cons s rest us vs hfirst _ ih =>
    have hboth : Declares (bodyEvents .checked (s :: rest))
        ((s :: rest).flatMap (Stmt.locals .value)) (do
          let r ← checkBodyStmt rest.isEmpty s
          if rest.isEmpty then return (r.1, returned || r.2)
          else checkBody (returned || r.2) rest) := by
      refine (checkBodyStmt_declares _ hfirst).bind fun r => ?_
      cases rest with
      | nil => exact .pure _
      | cons => exact ih _
    have hwarn : Walks True True (untyped True) [] {⟨.unreachable, s.span?.map Span.start⟩}
        (warn .unreachable s.span?) (warn .unreachable s.span?) := .warnSite rfl rfl
    rw [checkBody]
    split
    · exact (Declares.quiet hwarn).bind fun _ => hboth
    · exact hboth

end Owl
