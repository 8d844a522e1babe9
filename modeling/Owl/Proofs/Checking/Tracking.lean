/-
Scopes along a walk.

What a check does to the scopes is told by the events of its walk: it declares the
names that they declare, opens and closes scopes as they do, and marks as used only
names that they mention.  `Env.Tracking` lists what a relation between scopes before
and after some events has to stand for this, and `CheckM.Walks.tracks` shows that it
then holds between the scopes before and after every walk with these events.
-/
import Owl.Proofs.Checking.Congruence

namespace Owl

open Checker CheckM

/-- Relations `T es` between scopes before and after the events `es`. -/
structure Env.Tracking (T : List Event → Env → Env → Prop) : Prop where
  /-- Events that are left out, as they are behind a report. -/
  skip {es : List Event} (hes : Bracketed false es) (env : Env) : T es env env
  trans {es es' : List Event} {env env' env'' : Env} (hes : Bracketed true es) (h : T es env env')
    (h' : T es' env' env'') : T (es ++ es') env env''
  declare (env : Env) (name : String) (v : Variable) :
    T [.declare name v.isMutable] env (env.defineVar name v)
  markUsed {es : List Event} {env env' : Env} {name : String} (h : T es env env')
    (hname : name ∈ es.filterMap Event.name?) : T es env (env'.markUsed name)
  scope {es : List Event} {env env' : Env} (hes : Bracketed true es) (h : T es env.push env') :
    T (bracket es) env env'.pop

section Rules

variable {α : Type}

/-- What only records something leaves the scopes. -/
theorem CheckM.Steady.env_eq {p : CheckM α} {c : Checker}
    (h : Steady (fun _ _ d d' => d = d' ∧ d.env = c.env) p) : (p c).2.env = c.env :=
  (h (n := 0) (l := 0) ⟨rfl, rfl⟩).2.2

theorem env_report (problem : Problem) (place : Span) (c : Checker) :
    (report problem place c).2.env = c.env := (adds_addDiagnostic c _).env

variable {T : List Event → Env → Env → Prop} {es : List Event} {c : Checker}

theorem Env.Tracking.nameRule (hT : Env.Tracking T) {name : String} (hname : name ≠ "None")
    (place : Span) : T [.use name] c.env (nameRule name place c).2.env := by
  have hskip : T [.use name] c.env c.env := hT.skip (.lookup rfl .nil) _
  cases hvar : c.env.var? name with
  | none =>
    rw [nameRule_of_none hname hvar]
    exact (env_report (.undefinedVariable name) place c).symm ▸ hskip
  | some v =>
    rw [CheckM.nameRule, if_neg (by simpa using hname), get_bind, hvar]
    exact hT.markUsed hskip (List.mem_cons_self ..)

theorem Env.Tracking.functionRule (hT : Env.Tracking T) {name : String} {args : CheckM (List Ty)}
    (hargs : ∀ d, T es d.env (args d).2.env) (hes : Bracketed false es) (count : Nat)
    (place : Span) : T (.call name :: es) c.env (functionRule name count args place c).2.env := by
  have hcalled (d : Checker) (hd : d.env = c.env) : T (.call name :: es) c.env (args d).2.env :=
    hd ▸ hT.trans (.lookup rfl .nil) (hT.skip (.lookup rfl .nil) _) (hargs d)
  cases hfn : c.env.fn? name with
  | some signature =>
    rw [functionRule_of_some hfn]
    split
    · exact hcalled _ (env_report _ place c)
    · exact hcalled c rfl
  | none =>
    rw [functionRule_of_none hfn]
    split
    · exact hcalled c rfl
    · exact (env_report (.undefinedFunction name) place c).symm ▸ hT.skip (.lookup rfl hes) c.env

theorem Env.Tracking.assignRule (hT : Env.Tracking T) {name : String} {value : CheckM Ty}
    (hvalue : ∀ d, T es d.env (value d).2.env) (hes : Bracketed false es) (place : Span) :
    T (.assign name :: es) c.env (assignRule name value place c).2.env := by
  have hskip : T (.assign name :: es) c.env c.env := hT.skip (.lookup rfl hes) _
  cases hvar : c.env.var? name with
  | none =>
    rw [assignRule_of_none hvar, env_report]
    exact hskip
  | some v =>
    rw [assignRule_of_some hvar]
    split
    · have hassigned : T (.assign name :: es) c.env (value c).2.env :=
        hT.trans (.lookup rfl .nil) (hT.skip (.lookup rfl .nil) _) (hvalue c)
      have hrest : ((do
          unless v.type.compatible (value c).1 do
            report (.typeMismatch v.type.text (value c).1.text none) place
          modifyEnv (·.markUsed name) : CheckM Unit) (value c).2).2.env =
            (value c).2.env.markUsed name := by
        split
        · rfl
        · exact congrArg (·.markUsed name) (env_report _ place _)
      exact hrest ▸ hT.markUsed hassigned (List.mem_cons_self ..)
    · rw [env_report]
      exact hskip

/-- Such a relation holds between the scopes before and after a walk. -/
theorem CheckM.Walks.tracks (hT : Env.Tracking T) {inside : Prop} {K : Kinds} {s : Multiset Site}
    {p q : CheckM α} (h : Walks True inside K es s p q) (c : Checker) : T es c.env (p c).2.env := by
  have hquiet (env : Env) : T [] env env := hT.skip .nil env
  induction h generalizing c with
  | pure a => exact hquiet _
  | bind hp _ ihp ihf => exact hT.trans (hp.bracketed trivial) (ihp c) (ihf _ _)
  | spare _ _ ih | widen _ _ ih => exact ih c
  | look _ _ ih => exact ih c c
  | report problem place _ _ hes =>
    rw [env_report]
    exact hT.skip (hes trivial) _
  | reportMatch fault place _ hes => exact hT.skip (hes trivial) _
  | warn | warnSite =>
    rw [Steady.env_eq (warn_steady (recording_of_env (· = c.env)) _ _)]
    exact hquiet _
  | warnAlways => exact hquiet _
  | name _ hname place => exact hT.nameRule hname place
  | function _ _ name count place _ _ hes ih => exact hT.functionRule ih (hes trivial) count place
  | assign _ _ name place _ _ hes ih => exact hT.assignRule ih (hes trivial) place
  | declare name _ hmutable =>
    subst hmutable
    exact hT.declare _ name _
  | marked _ hname ih => exact hT.markUsed (ih c) hname
  | scope hp ih => exact hT.scope (hp.bracketed trivial) (ih { c with env := c.env.push })
  | loop _ ih => exact ih { c with loopDepth := c.loopDepth + 1 }
  | warnUnused _ fnName =>
    rw [Steady.env_eq (warnUnused_steady (recording_of_env (· = c.env)) (fun h => by rw [h.1]) fnName)]
    exact hquiet _

end Rules

end Owl
