/-
Checking does not depend on places.

Places decide which findings are dropped as repetitions, and nothing else.  A
finding is dropped only if its code was found before, so the codes that are found
do not depend on places.

* `CheckM.Alike p q` — the checks `p` and `q` give the same value and go from
  alike states to alike states: scopes that differ only in places, and the same
  codes among the findings.
-/
import Owl.Proofs.Checking.Congruence

namespace Owl

/-! ### Scopes without places -/

namespace Table

variable {α β : Type} (f : α → β)

def mapValues (t : Table α) : Table β := t.map fun row => (row.1, f row.2)

theorem get?_mapValues (t : Table α) (key : String) :
    (t.mapValues f).get? key = (t.get? key).map f := by
  induction t with
  | nil => rfl
  | cons row t ih =>
    obtain ⟨k, a⟩ := row
    simp only [mapValues, List.map_cons, get?] at ih ⊢
    split
    · rfl
    · exact ih

theorem put_mapValues (t : Table α) (key : String) (a : α) :
    (t.put key a).mapValues f = (t.mapValues f).put key (f a) := by
  induction t with
  | nil => rfl
  | cons row t ih =>
    obtain ⟨k, b⟩ := row
    simp only [mapValues, List.map_cons, put] at ih ⊢
    split
    · rfl
    · rw [List.map_cons, ih]

theorem update_mapValues {g : α → α} {h : β → β} (hcomm : ∀ a, f (g a) = h (f a)) (t : Table α)
    (key : String) : (t.update g key).mapValues f = (t.mapValues f).update h key := by
  induction t with
  | nil => rfl
  | cons row t ih =>
    obtain ⟨k, b⟩ := row
    simp only [mapValues, List.map_cons, update] at ih ⊢
    split
    · rw [List.map_cons, hcomm]
    · rw [List.map_cons, ih]

end Table

def Scope.strip (s : Scope) : Scope := ⟨s.vars.mapValues Variable.strip, s.fns⟩

namespace Env

def strip (env : Env) : Env := ⟨env.scope.strip, env.outer.map Scope.strip⟩

theorem scopes_strip (env : Env) : env.strip.scopes = env.scopes.map Scope.strip := rfl

theorem var?_strip (env : Env) (name : String) :
    env.strip.var? name = (env.var? name).map Variable.strip := by
  rw [var?, var?, scopes_strip]
  induction env.scopes with
  | nil => rfl
  | cons s rest ih =>
    simp only [List.map_cons, List.findSome?_cons, Scope.strip, Table.get?_mapValues] at ih ⊢
    cases s.vars.get? name with
    | none => exact ih
    | some v => rfl

theorem fn?_strip (env : Env) (name : String) : env.strip.fn? name = env.fn? name := by
  rw [fn?, fn?, scopes_strip, List.findSome?_map]
  rfl

theorem defineVar_strip (env : Env) (name : String) (v : Variable) :
    (env.defineVar name v).strip = env.strip.defineVar name v.strip := by
  simp only [defineVar, strip, Scope.strip, Table.put_mapValues]

theorem defineFn_strip (env : Env) (name : String) (s : Signature) :
    (env.defineFn name s).strip = env.strip.defineFn name s := rfl

theorem markIn_strip (name : String) (scopes : List Scope) :
    (markIn name scopes).map Scope.strip = markIn name (scopes.map Scope.strip) := by
  induction scopes with
  | nil => rfl
  | cons s rest ih =>
    have hhas : s.strip.vars.has name = s.vars.has name := by
      simp [Table.has, Scope.strip, Table.get?_mapValues]
    rw [List.map_cons, markIn, markIn, hhas]
    split
    · refine congrArg (· :: rest.map Scope.strip) (congrArg (Scope.mk · s.fns) ?_)
      refine Table.update_mapValues Variable.strip ?_ s.vars name
      exact fun _ => rfl
    · rw [List.map_cons, ih]

theorem markUsed_strip (env : Env) (name : String) :
    (env.markUsed name).strip = env.strip.markUsed name := by
  have h := markIn_strip name env.scopes
  rw [markUsed, markUsed, scopes_strip, ← h]
  cases markIn name env.scopes <;> rfl

theorem push_strip (env : Env) : env.push.strip = env.strip.push := rfl

theorem pop_strip (env : Env) : env.pop.strip = env.strip.pop := by
  obtain ⟨scope, outer⟩ := env
  cases outer <;> rfl

end Env

/-! ### States that are alike -/

/-- States that differ in places at most: warnings may differ, and of the findings only the codes
count. -/
structure Checker.Alike (c d : Checker) : Prop where
  env : c.env.strip = d.env.strip
  codes : ∀ code, code ∈ c.findings.map Finding.code ↔ code ∈ d.findings.map Finding.code
  returns? : c.returns? = d.returns?
  loopDepth : c.loopDepth = d.loopDepth

namespace Checker.Alike

theorem refl (c : Checker) : c.Alike c := ⟨rfl, fun _ => Iff.rfl, rfl, rfl⟩

theorem symm {c d : Checker} (h : c.Alike d) : d.Alike c :=
  ⟨h.env.symm, fun code => (h.codes code).symm, h.returns?.symm, h.loopDepth.symm⟩

theorem trans {c d e : Checker} (h : c.Alike d) (h' : d.Alike e) : c.Alike e :=
  ⟨h.env.trans h'.env, fun code => (h.codes code).trans (h'.codes code),
    h.returns?.trans h'.returns?, h.loopDepth.trans h'.loopDepth⟩

theorem var? {c d : Checker} (h : c.Alike d) (name : String) :
    (c.env.var? name).map Variable.strip = (d.env.var? name).map Variable.strip := by
  rw [← Env.var?_strip, ← Env.var?_strip, h.env]

theorem fn? {c d : Checker} (h : c.Alike d) (name : String) :
    c.env.fn? name = d.env.fn? name := by
  rw [← Env.fn?_strip c.env, ← Env.fn?_strip d.env, h.env]

end Checker.Alike

/-- A diagnostic adds its code, whether it is recorded or was dropped. -/
theorem Checker.mem_addDiagnostic (c : Checker) (d : Diagnostic) (code : String) :
    code ∈ (c.addDiagnostic d).findings.map Finding.code ↔
      code = d.code ∨ code ∈ c.findings.map Finding.code := by
  rw [addDiagnostic]
  split
  · next h =>
    -- what is dropped was found before
    obtain ⟨d', hd', hsame⟩ := List.any_eq_true.mp h
    obtain ⟨finding, hfinding, hdiag⟩ := List.mem_filterMap.mp hd'
    have hcode : finding.code = d.code := by
      cases finding with
      | matchFault => simp [Finding.diagnostic?] at hdiag
      | diagnostic d'' =>
        simp only [Finding.diagnostic?, Option.some.injEq] at hdiag
        simp only [Bool.and_eq_true, beq_iff_eq] at hsame
        rw [Finding.code, hdiag, hsame.1]
    have hmem : d.code ∈ c.findings.map Finding.code :=
      List.mem_map.mpr ⟨finding, hfinding, hcode⟩
    constructor
    · exact Or.inr
    · rintro (rfl | h)
      · exact hmem
      · exact h
  · simp only [List.map_append, List.map_cons, List.map_nil, List.mem_append, List.mem_singleton,
      Finding.code, or_comm]

theorem Checker.addDiagnostic_alike {c d : Checker} (h : c.Alike d) {e f : Diagnostic}
    (hcode : e.code = f.code) : (c.addDiagnostic e).Alike (d.addDiagnostic f) := by
  have hrest : ∀ (c : Checker) (e : Diagnostic), (c.addDiagnostic e).env = c.env ∧
      (c.addDiagnostic e).returns? = c.returns? ∧
      (c.addDiagnostic e).loopDepth = c.loopDepth := by
    intro c e
    rw [addDiagnostic]
    split <;> exact ⟨rfl, rfl, rfl⟩
  obtain ⟨henv, hreturns, hdepth⟩ := hrest c e
  obtain ⟨henv', hreturns', hdepth'⟩ := hrest d f
  refine ⟨by rw [henv, henv', h.env], fun code => ?_, by rw [hreturns, hreturns', h.returns?],
    by rw [hdepth, hdepth', h.loopDepth]⟩
  rw [mem_addDiagnostic, mem_addDiagnostic, hcode, h.codes]

theorem Checker.addWarning_alike (c : Checker) (w : Warning) : (c.addWarning w).Alike c := by
  rw [addWarning]
  split <;> exact ⟨rfl, fun _ => Iff.rfl, rfl, rfl⟩

/-! ### Actions that are alike -/

namespace CheckM

variable {α : Type}

/-- Actions that give the same value and go from alike states to alike states. -/
def Alike (p q : CheckM α) : Prop := Paired (fun _ _ => Checker.Alike) p q

theorem report_alike (p : Problem) (place place' : Span) :
    Alike (report p place) (report p place') :=
  .modify fun h => Checker.addDiagnostic_alike h rfl

theorem reportMatch_alike (fault : MatchFault) (place place' : Span) :
    Alike (reportMatch fault place) (reportMatch fault place') := by
  refine .modify fun h => ⟨h.env, fun code => ?_, h.returns?, h.loopDepth⟩
  simp only [List.map_append, List.mem_append, h.codes]
  rfl

theorem warn_alike (concern concern' : Concern) (place? place?' : Option Span) :
    Alike (warn concern place?) (warn concern' place?') :=
  .modify fun h =>
    (Checker.addWarning_alike _ _).trans (h.trans (Checker.addWarning_alike _ _).symm)

theorem warnAlways_alike (concern : Concern) (place? place?' : Option Span) :
    Alike (warnAlways concern place?) (warnAlways concern place?') :=
  .modify fun h => ⟨h.env, h.codes, h.returns?, h.loopDepth⟩

theorem modifyEnv_alike {f g : Env → Env}
    (h : ∀ env env' : Env, env.strip = env'.strip → (f env).strip = (g env').strip) :
    Alike (modifyEnv f) (modifyEnv g) :=
  .modify fun hcd => ⟨h _ _ hcd.env, hcd.codes, hcd.returns?, hcd.loopDepth⟩

theorem defineVar_alike (name : String) {v w : Variable} (h : v.strip = w.strip) :
    Alike (defineVar name v) (defineVar name w) := by
  refine modifyEnv_alike fun env env' henv => ?_
  rw [Env.defineVar_strip, Env.defineVar_strip, henv, h]

theorem markUsed_alike (name : String) :
    Alike (modifyEnv (·.markUsed name)) (modifyEnv (·.markUsed name)) := by
  refine modifyEnv_alike fun env env' henv => ?_
  rw [Env.markUsed_strip, Env.markUsed_strip, henv]

theorem inScope_alike {p q : CheckM α} (h : Alike p q) : Alike (inScope p) (inScope q) := by
  refine .bind (modifyEnv_alike fun env env' henv => ?_) fun _ => h.bind fun a => ?_
  · rw [Env.push_strip, Env.push_strip, henv]
  · refine .bind (modifyEnv_alike fun env env' henv => ?_) fun _ => .pure a
    rw [Env.pop_strip, Env.pop_strip, henv]

theorem inLoop_alike {p q : CheckM α} (h : Alike p q) : Alike (inLoop p) (inLoop q) := by
  refine .bind (.modify fun h => ?_) fun _ => h.bind fun a => .bind (.modify fun h => ?_)
    fun _ => .pure a
  · exact ⟨h.env, h.codes, h.returns?, congrArg (· + 1) h.loopDepth⟩
  · exact ⟨h.env, h.codes, h.returns?, congrArg (· - 1) h.loopDepth⟩

theorem sees_alike (name : String) : Sees (fun _ _ => Checker.Alike) name :=
  fun _ _ _ _ h => Variable.map_look (f := Variable.strip) (fun _ => rfl) (h.var? name)

/-! ### Walks -/

theorem warnRow_quiet (fnName : String) (row : String × Variable) (c : Checker) :
    (warnRow fnName row c).2.Alike c := by
  rw [warnRow]
  split <;> exact Checker.addWarning_alike c _

/-- Warnings about unused names change nothing but the warnings. -/
theorem warnUnused_quiet (fnName : String) (c : Checker) : (warnUnused fnName c).2.Alike c := by
  have hrows (rows : Table Variable) (c : Checker) : (rows.forM (warnRow fnName) c).2.Alike c := by
    induction rows generalizing c with
    | nil => exact .refl c
    | cons row rows ih => exact (ih _).trans (warnRow_quiet fnName row c)
  rw [warnUnused_eq]
  exact hrows c.env.scope.unused c

theorem warnUnused_alike (fnName : String) : Alike (warnUnused fnName) (warnUnused fnName) :=
  fun _ _ c d h =>
    ⟨rfl, (warnUnused_quiet fnName c).trans (h.trans (warnUnused_quiet fnName d).symm)⟩

/-- All that a check does at some places, it does at others. -/
theorem Walks.alike {K : Kinds} {es : List Event} {s : Multiset Site} {p q : CheckM α}
    (h : Walks False True K es s p q) : Alike p q := by
  induction h with
  | pure a => exact .pure a
  | bind _ _ hp hf => exact hp.bind hf
  | spare _ _ hp | widen _ _ hp => exact hp
  | look _ heq hf =>
    refine .bind_get fun h => ?_
    rw [(heq _ _ h.returns? h.loopDepth).1]
    exact hf _
  | report problem place place' => exact report_alike problem place place'
  | reportMatch fault place place' => exact reportMatch_alike fault place place'
  | warn | warnSite => exact warn_alike _ _ _ _
  | warnAlways => exact warnAlways_alike _ _ _
  | name => exact nameRule_paired (report_alike · _ _) (sees_alike _) (markUsed_alike _)
  | function _ _ name count _ _ _ _ hargs =>
    exact functionRule_paired (report_alike · _ _)
      (fun n l _ _ h => ⟨h.fn? name, fun _ => sees_alike name (n := n) (l := l) h⟩) count hargs
  | assign _ _ name _ _ _ _ hvalue =>
    exact assignRule_paired (report_alike · _ _) (sees_alike name) (markUsed_alike name) hvalue
  | declare name hstrip => exact defineVar_alike name hstrip
  | marked _ _ hp => exact hp.bind fun _ => markUsed_alike _
  | scope _ hp => exact inScope_alike hp
  | loop _ hp => exact inLoop_alike hp
  | warnUnused _ fnName => exact warnUnused_alike fnName

end CheckM

open CheckM

/-! ### Functions -/

theorem signatureOf_strip (fn : FnDecl) : Alike (signatureOf fn) (signatureOf fn.strip) := by
  obtain ⟨name, params, body, returns?, span?⟩ := fn
  have hparams : (params.map Param.strip).map (fun _ => Ty.any) = params.map fun _ => Ty.any := by
    rw [List.map_map]
    rfl
  simp only [FnDecl.strip, signatureOf, hparams]
  cases returns? with
  | none => exact .pure _
  | some written => exact (readType_walks written).alike.bind fun _ => .pure _

theorem declare_strip (fn : FnDecl) : Alike (declare fn) (declare fn.strip) := by
  have hname : fn.strip.name = fn.name := by
    obtain ⟨name, params, body, returns?, span?⟩ := fn
    rfl
  rw [declare, declare, hname]
  refine (signatureOf_strip fn).bind fun signature => modifyEnv_alike fun env env' henv => ?_
  rw [Env.defineFn_strip, Env.defineFn_strip, henv]

theorem checkFunction_strip (fn : FnDecl) :
    Alike (checkFunction fn) (checkFunction fn.strip) := by
  have hinside := (checkInside_walks trivial fn False.elim).alike
  obtain ⟨name, params, body, returns?, span?⟩ := fn
  simp only [FnDecl.strip, checkFunction] at hinside ⊢
  refine .bind (inScope_alike ?_) fun _ => .modify fun h => ?_
  · refine (defineParams_walks params).alike.bind fun _ => ?_
    refine .bind (.modify fun h => ?_) fun _ => hinside
    exact ⟨h.env, h.codes, congrArg (Option.map Signature.returns) (h.fn? name), h.loopDepth⟩
  · exact ⟨h.env, h.codes, rfl, h.loopDepth⟩

/-! ### Programs -/

theorem Import.strip_bound (i : Import) : i.strip.bound = i.bound := by
  cases i <;> rfl

theorem checkProgram_strip (p : Program) : Alike (checkProgram p) (checkProgram p.strip) := by
  have himports : p.strip.imports.flatMap Import.bound = p.imports.flatMap Import.bound := by
    simp only [Program.strip, List.flatMap_map, Import.strip_bound]
  rw [checkProgram, checkProgram, himports]
  refine (Paired.forM FnDecl.strip declare_strip p.functions).bind fun _ => ?_
  refine (Steady.forM (fun name => defineVar_alike name rfl) _).bind fun _ => ?_
  exact (Paired.forM FnDecl.strip checkFunction_strip p.functions).bind fun _ =>
    (checkStmts_walks p.statements False.elim).alike

/-- A program and its stripped form are checked alike. -/
theorem Checker.check_strip (c : Checker) (p : Program) : (c.check p).Alike (c.check p.strip) :=
  (checkProgram_strip p (n := 0) (l := 0) (.refl { c with findings := [], warnings := [] })).2

end Owl
