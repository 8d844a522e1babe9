/-
What a check can cost.

What a check does to its state is judged by a relation between a state and a later one,
which may allow more the more sites are used up between them.

* `CheckM.Walks.costs` — what a walk changes is allowed by its sites;
* `checkExpr_costs`, `checkStmt_costs`, `checkProgram_costs` — the check of a tree uses
  up the sites of the tree.
-/
import Owl.Proofs.Checking.Order

namespace Owl

def functionsSites : List FnDecl → Multiset Site
  | [] => 0
  | fn :: fns => fn.sites + functionsSites fns

def Program.sites (p : Program) : Multiset Site :=
  functionsSites p.functions + stmtsSites p.statements

/-! ### Accounts -/

namespace Checker

/-- Relations `R s` between a state and a later one, with the sites `s` used up between them, that
hold for everything a check can do, if it reports problems of the kinds `K` only. -/
structure Account (K : Kinds) (R : Multiset Site → Checker → Checker → Prop) : Prop where
  refl (c : Checker) : R 0 c c
  trans {s t : Multiset Site} {c d e : Checker} (h : R s c d) (h' : R t d e) : R (s + t) c e
  mono {s t : Multiset Site} {c d : Checker} (h : R s c d) (hst : s ≤ t) : R t c d
  report (c : Checker) {p : Problem} (kind : K p.kind) (place : Span) :
    R 0 c (c.addDiagnostic (p.toDiagnostic place))
  reportMatch (c : Checker) (fault : MatchFault) (pos : Position) :
    R {⟨.matching, some pos⟩} c { c with findings := c.findings ++ [.matchFault fault pos] }
  warn (c : Checker) {concern : Concern} {place? : Option Span}
    (code : siteKind? concern.code = none) (placed : (concern.toWarning place?).span?.isSome) :
    R 0 c (c.addWarning (concern.toWarning place?))
  warnSite (c : Checker) {concern : Concern} {kind : SiteKind}
    (code : siteKind? concern.code = some kind) (place? : Option Span) :
    R {⟨kind, (concern.toWarning place?).span?.map Span.start⟩} c
      (c.addWarning (concern.toWarning place?))
  warnAlways (c : Checker) {concern : Concern} {kind : SiteKind}
    (code : siteKind? concern.code = some kind) (place : Span) :
    R {⟨kind, some place.start⟩} c
      { c with warnings := c.warnings ++ [concern.toWarning (some place)] }
  defineVar (c : Checker) (name : String) (v : Variable) :
    R 0 c { c with env := c.env.defineVar name v }
  markUsed (c : Checker) (name : String) : R 0 c { c with env := c.env.markUsed name }
  scope {s : Multiset Site} {c d : Checker} (h : R s { c with env := c.env.push } d) :
    R s c { d with env := d.env.pop }
  loop {s : Multiset Site} {c d : Checker} (h : R s { c with loopDepth := c.loopDepth + 1 } d) :
    R s c { d with loopDepth := d.loopDepth - 1 }

theorem Account.narrow {K K' : Kinds} {R : Multiset Site → Checker → Checker → Prop}
    (hR : Account K' R) (h : ∀ kind, K kind → K' kind) : Account K R :=
  { hR with report := fun c _ kind place => hR.report c (h _ kind) place }

end Checker

namespace CheckM

variable {α β : Type} {K : Kinds} {R : Multiset Site → Checker → Checker → Prop}
  {s t : Multiset Site}

/-- An action uses up at most the sites `s`. -/
def Costs (R : Multiset Site → Checker → Checker → Prop) (s : Multiset Site) (p : CheckM α) :
    Prop :=
  ∀ c, R s c (p c).2

theorem Costs.bind_get {f : Checker → CheckM β} (hf : ∀ c, Costs R s (f c)) :
    Costs R s (get >>= f) :=
  fun c => hf c c

theorem Costs.ite {P : Prop} [Decidable P] {p q : CheckM α} (hp : Costs R s p)
    (hq : Costs R s q) : Costs R s (if P then p else q) := by
  split
  · exact hp
  · exact hq

section Account

variable (hR : Checker.Account K R)

include hR

theorem Costs.pure (a : α) : Costs R 0 (Pure.pure a) := fun c => hR.refl c

theorem Costs.mono {p : CheckM α} (hp : Costs R s p) (hst : s ≤ t) : Costs R t p :=
  fun c => hR.mono (hp c) hst

theorem Costs.bind {p : CheckM α} {f : α → CheckM β} (hp : Costs R s p)
    (hf : ∀ a, Costs R t (f a)) : Costs R (s + t) (p >>= f) :=
  fun c => hR.trans (hp c) (hf (p c).1 (p c).2)

/-- What costs nothing, in front of an action. -/
theorem Costs.free_bind {p : CheckM α} {f : α → CheckM β} (hp : Costs R 0 p)
    (hf : ∀ a, Costs R s (f a)) : Costs R s (p >>= f) := by
  have h := Costs.bind hR hp hf
  rwa [zero_add] at h

/-- What costs nothing, behind an action. -/
theorem Costs.bind_free {p : CheckM α} {f : α → CheckM β} (hp : Costs R s p)
    (hf : ∀ a, Costs R 0 (f a)) : Costs R s (p >>= f) := by
  have h := Costs.bind hR hp hf
  rwa [add_zero] at h

theorem Costs.map {p : CheckM α} (hp : Costs R s p) (f : α → β) :
    Costs R s (do let a ← p; Pure.pure (f a)) :=
  .bind_free hR hp fun _ => .pure hR _

theorem Costs.forM {f : α → CheckM Unit} (hf : ∀ a, Costs R 0 (f a)) (as : List α) :
    Costs R 0 (as.forM f) := by
  induction as with
  | nil => exact .pure hR _
  | cons a as ih => exact .free_bind hR (hf a) fun _ => ih

theorem report_costs {p : Problem} {place : Span} (hK : K p.kind) : Costs R 0 (report p place) :=
  fun c => hR.report c hK place

theorem reported_costs {p : Problem} {place : Span} {a : α} (hK : K p.kind) :
    Costs R 0 (do report p place; Pure.pure a) :=
  .free_bind hR (report_costs hR hK) fun _ => .pure hR a

theorem inScope_costs {p : CheckM α} (hp : Costs R s p) : Costs R s (inScope p) :=
  fun c => hR.scope (hp { c with env := c.env.push })

theorem inLoop_costs {p : CheckM α} (hp : Costs R s p) : Costs R s (inLoop p) :=
  fun c => hR.loop (hp { c with loopDepth := c.loopDepth + 1 })

theorem defineVar_costs (name : String) (v : Variable) : Costs R 0 (defineVar name v) :=
  fun c => hR.defineVar c name v

theorem markUsed_costs (name : String) : Costs R 0 (modifyEnv (·.markUsed name)) :=
  fun c => hR.markUsed c name

/-! ### Looking names up -/

theorem nameRule_costs (hK : K .single) (name : String) (place : Span) :
    Costs R 0 (nameRule name place) := by
  refine .ite (.pure hR _) (.bind_get fun c => ?_)
  split
  · exact .free_bind hR (markUsed_costs hR name) fun _ => .pure hR _
  · exact reported_costs hR hK

/-- An action that is left out costs nothing, so it may stand for one that does. -/
theorem Costs.of_free {p : CheckM α} (hp : Costs R 0 p) : Costs R s p :=
  hp.mono hR (Multiset.zero_le s)

theorem functionRule_costs (hK : K .single) (hK' : K .mixed) (name : String) (count : Nat)
    {args : CheckM (List Ty)} (h : Costs R s args) (place : Span) :
    Costs R s (functionRule name count args place) := by
  have hargs : ∀ type : Ty, Costs R s (do let _ ← args; Pure.pure type) :=
    fun type => .map hR h _
  refine .bind_get fun c => ?_
  split
  · exact .ite (.free_bind hR (report_costs hR hK) fun _ => hargs _) (hargs _)
  · exact .bind_get fun c => .ite (hargs _) (.of_free hR (reported_costs hR hK'))

theorem assignRule_costs (hK : K .single) (hK' : K .mixed) (name : String) {value : CheckM Ty}
    (h : Costs R s value) (place : Span) : Costs R s (assignRule name value place) := by
  refine .bind_get fun c => ?_
  split
  · exact .of_free hR (report_costs hR hK)
  · refine .ite (.bind_free hR h fun type => .ite ?_ ?_) (.of_free hR (report_costs hR hK'))
    · exact markUsed_costs hR name
    · exact .free_bind hR (report_costs hR hK') fun _ => markUsed_costs hR name

theorem warnRow_costs (fnName : String) (row : String × Variable) :
    Costs R 0 (warnRow fnName row) :=
  -- A name without a place is put at the dummy place.
  .ite (fun c => hR.warn c rfl rfl) fun c => hR.warn c rfl rfl

theorem warnUnused_costs (fnName : String) : Costs R 0 (warnUnused fnName) := by
  rw [warnUnused_eq]
  exact .bind_get fun c => .forM hR (warnRow_costs hR fnName) _

/-- All that a check can do uses up no more than its sites. -/
theorem Walks.costs {strict : Prop} {es : List Event} {p q : CheckM α}
    (h : Walks strict True K es s p q) : Costs R s p := by
  induction h with
  | pure a => exact .of_free hR (.pure hR a)
  | bind _ _ hp hf => exact .bind hR (hp hR) fun a => hf a hR
  | spare _ hst hp => exact (hp hR).mono hR hst
  | widen _ hK hp => exact hp (hR.narrow hK)
  | look _ _ hf => exact .bind_get fun c => hf c hR
  | report _ place _ hK => exact .of_free hR (report_costs hR hK)
  | reportMatch fault place => exact fun c => hR.reportMatch c fault place.start
  | warn hcode hplaced => exact fun c => hR.warn c hcode hplaced
  | warnSite hcode hpos => exact fun c => hpos ▸ hR.warnSite c hcode _
  | warnAlways hcode place => exact fun c => hR.warnAlways c hcode place
  | name hK _ place => exact nameRule_costs hR hK _ place
  | function hK hK' name count place _ _ _ hargs =>
    exact functionRule_costs hR hK hK' name count (hargs hR) place
  | assign hK hK' name place _ _ _ hvalue =>
    exact assignRule_costs hR hK hK' name (hvalue hR) place
  | declare name => exact defineVar_costs hR name _
  | marked _ _ hp => exact .bind_free hR (hp hR) fun _ => markUsed_costs hR _
  | scope _ hp => exact inScope_costs hR (hp hR)
  | loop _ hp => exact inLoop_costs hR (hp hR)
  | warnUnused _ fnName => exact warnUnused_costs hR fnName

theorem signatureOf_costs (hK : ∀ kind, kind ≠ .single → K kind) (fn : FnDecl) :
    Costs R 0 (signatureOf fn) := by
  rw [signatureOf]
  split
  · exact .map hR (((@readType_walks False True _).widen hK).costs hR) _
  · exact .pure hR _

end Account

end CheckM

open CheckM

variable {R : Multiset Site → Checker → Checker → Prop} (hR : Checker.Account anyKind R)

include hR

/-! ### Trees -/

theorem checkExpr_costs (e : Expr) : Costs R e.sites (checkExpr e) :=
  (checkExpr_walks e False.elim).wide.costs hR

theorem checkExprs_costs (es : List Expr) : Costs R (exprsSites es) (checkExprs es) :=
  (checkExprs_walks es False.elim).wide.costs hR

theorem checkArms_costs (subject : Ty) (arms : List Arm) :
    Costs R (armsSites arms) (checkArms subject arms) :=
  (checkArms_walks subject arms False.elim).wide.costs hR

theorem checkStmt_costs (use : Use) (s : Stmt) : Costs R s.sites (checkStmt use s) :=
  (checkStmt_walks use s False.elim).costs hR

theorem checkStmts_costs (ss : List Stmt) : Costs R (stmtsSites ss) (checkStmts ss) :=
  (checkStmts_walks ss False.elim).costs hR

theorem checkBodyStmt_costs (isLast : Bool) (s : Stmt) :
    Costs R (s.sites + s.ignoredSites) (checkBodyStmt isLast s) :=
  (checkBodyStmt_walks isLast s False.elim).costs hR

theorem checkBody_costs (returned : Bool) (ss : List Stmt) :
    Costs R (bodySites ss) (checkBody returned ss) :=
  (checkBody_walks returned ss False.elim).costs hR

theorem defineParam_costs (p : Param) : Costs R 0 (defineParam p) :=
  (@defineParam_walks False True p).wide.costs hR

/-! ### Programs

Functions set the type that is to be returned, and declarations enter functions. -/

variable (hreturns : ∀ c returns?, R 0 c { c with returns? := returns? })

include hreturns

theorem functionInside_costs (fn : FnDecl) : Costs R fn.sites (functionInside fn) := by
  refine .free_bind hR (.forM hR (defineParam_costs hR) fn.params) fun _ => ?_
  exact .free_bind hR (fun c => hreturns c _) fun _ =>
    (checkInside_walks trivial fn False.elim).costs hR

theorem checkFunction_costs (fn : FnDecl) : Costs R fn.sites (checkFunction fn) :=
  .bind_free hR (inScope_costs hR (functionInside_costs hR hreturns fn)) fun _ c => hreturns c none

theorem checkFunctions_costs (fns : List FnDecl) :
    Costs R (functionsSites fns) (fns.forM checkFunction) := by
  induction fns with
  | nil => exact .pure hR _
  | cons fn fns ih => exact .bind hR (checkFunction_costs hR hreturns fn) fun _ => ih

/-- A program uses up its sites. -/
theorem checkProgram_costs
    (hdefineFn : ∀ c name signature, R 0 c { c with env := c.env.defineFn name signature })
    (p : Program) : Costs R p.sites (checkProgram p) := by
  have hdeclare : ∀ fn, Costs R 0 (declare fn) :=
    fun fn =>
      .free_bind hR (signatureOf_costs hR (fun _ _ => trivial) fn) fun _ c => hdefineFn c _ _
  refine .free_bind hR (.forM hR hdeclare p.functions) fun _ => ?_
  refine .free_bind hR (.forM hR (fun name => defineVar_costs hR name _) _) fun _ => ?_
  exact .bind hR (checkFunctions_costs hR hreturns p.functions) fun _ =>
    checkStmts_costs hR p.statements

end Owl
