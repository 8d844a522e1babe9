/-
A check comes back to rest.

However its trees are built, a check leaves each scope and each loop that it went
into.  Of the scopes around it, it changes nothing but marks of use.
-/
import Owl.Proofs.Checking.Account

namespace Owl

/-! ### Marks of use -/

/-- The second variable is the first one, or it is the first one marked as used. -/
def Variable.Touched (v w : Variable) : Prop := w = v ∨ w = { v with used := true }

theorem Variable.Touched.trans {u v w : Variable} (h : u.Touched v) (h' : v.Touched w) :
    u.Touched w := by
  rcases h with rfl | rfl
  · exact h'
  · rcases h' with rfl | rfl <;> exact .inr rfl

def RowTouched (row row' : String × Variable) : Prop := row'.1 = row.1 ∧ row.2.Touched row'.2

theorem RowTouched.trans {row row' row'' : String × Variable} (h : RowTouched row row')
    (h' : RowTouched row' row'') : RowTouched row row'' :=
  ⟨h'.1.trans h.1, h.2.trans h'.2⟩

/-- From a scope to a later one, only marks of use were set. -/
structure Scope.Touched (s t : Scope) : Prop where
  vars : List.Forall₂ RowTouched s.vars t.vars
  fns : t.fns = s.fns

theorem forall₂_trans {α : Type} {r : α → α → Prop}
    (htrans : ∀ {a b c : α}, r a b → r b c → r a c) {as bs cs : List α}
    (h : List.Forall₂ r as bs) (h' : List.Forall₂ r bs cs) : List.Forall₂ r as cs := by
  induction h generalizing cs with
  | nil => exact h'
  | cons hab _ ih =>
    cases h' with
    | cons hbc hrest => exact .cons (htrans hab hbc) (ih hrest)

namespace Scope.Touched

theorem refl (s : Scope) : s.Touched s :=
  ⟨List.forall₂_same.mpr fun _ _ => ⟨rfl, .inl rfl⟩, rfl⟩

theorem trans {s t u : Scope} (h : s.Touched t) (h' : t.Touched u) : s.Touched u :=
  ⟨forall₂_trans .trans h.vars h'.vars, h'.fns.trans h.fns⟩

theorem mark (s : Scope) (name : String) :
    s.Touched { s with vars := s.vars.update (fun v => { v with used := true }) name } := by
  refine ⟨?_, rfl⟩
  show List.Forall₂ RowTouched s.vars (s.vars.update (fun v => { v with used := true }) name)
  induction s.vars with
  | nil => exact .nil
  | cons row rows ih =>
    obtain ⟨key, v⟩ := row
    rw [Table.update]
    split
    · exact .cons ⟨rfl, .inr rfl⟩ (List.forall₂_same.mpr fun _ _ => ⟨rfl, .inl rfl⟩)
    · exact .cons ⟨rfl, .inl rfl⟩ ih

end Scope.Touched

/-- Nested scopes in which only marks of use were set. -/
abbrev TouchedScopes : List Scope → List Scope → Prop := List.Forall₂ Scope.Touched

theorem TouchedScopes.refl (xs : List Scope) : TouchedScopes xs xs :=
  List.forall₂_same.mpr fun s _ => .refl s

theorem TouchedScopes.markIn (name : String) (xs : List Scope) :
    TouchedScopes xs (Env.markIn name xs) := by
  induction xs with
  | nil => exact .nil
  | cons s xs ih =>
    rw [Env.markIn]
    split
    · exact .cons (.mark s name) (TouchedScopes.refl xs)
    · exact .cons (.refl s) ih

/-! ### Names that stay -/

/-- The keys of a table, in the order of their first entry. -/
def Table.keys {α : Type} (t : Table α) : List String := t.map Prod.fst

theorem Table.keys_put {α : Type} (t : Table α) (key : String) (value : α) :
    t.keys <+: (t.put key value).keys := by
  induction t with
  | nil => exact List.nil_prefix
  | cons row t ih =>
    obtain ⟨k, a⟩ := row
    rw [put]
    split
    · exact List.prefix_rfl
    · exact List.cons_prefix_cons.mpr ⟨rfl, ih⟩

theorem Table.mem_of_get? {α : Type} {t : Table α} {key : String} {value : α}
    (h : t.get? key = some value) : (key, value) ∈ t := by
  induction t with
  | nil => cases h
  | cons row t ih =>
    rw [get?] at h
    split at h
    · next hkey =>
      obtain rfl := Option.some.inj h
      exact eq_of_beq hkey ▸ List.mem_cons_self ..
    · exact List.mem_cons_of_mem _ (ih h)

theorem Table.mem_keys {α : Type} {t : Table α} {key : String} (h : (t.get? key).isSome = true) :
    key ∈ t.keys := by
  obtain ⟨value, hvalue⟩ := Option.isSome_iff_exists.mp h
  exact List.mem_map_of_mem (mem_of_get? hvalue)

theorem keys_of_touched {t t' : Table Variable} (h : List.Forall₂ RowTouched t t') :
    t'.keys = t.keys := by
  induction h with
  | nil => rfl
  | cons hrow _ ih => exact congrArg₂ List.cons hrow.1 ih

/-- A later scope has the names of an earlier one, in their order. -/
structure Scope.Extends (s t : Scope) : Prop where
  vars : s.vars.keys <+: t.vars.keys
  fns : s.fns.keys <+: t.fns.keys

namespace Scope.Extends

theorem refl (s : Scope) : s.Extends s := ⟨List.prefix_rfl, List.prefix_rfl⟩

theorem trans {s t u : Scope} (h : s.Extends t) (h' : t.Extends u) : s.Extends u :=
  ⟨h.vars.trans h'.vars, h.fns.trans h'.fns⟩

theorem of_touched {s t : Scope} (h : s.Touched t) : s.Extends t :=
  ⟨keys_of_touched h.vars ▸ List.prefix_rfl, h.fns ▸ List.prefix_rfl⟩

end Scope.Extends

/-- What is kept of an environment: the names of its innermost scope, and all but marks of use of
the scopes around it. -/
structure Env.Kept (env env' : Env) : Prop where
  scope : env.scope.Extends env'.scope
  outer : TouchedScopes env.outer env'.outer

namespace Env.Kept

theorem refl (env : Env) : env.Kept env := ⟨.refl _, .refl _⟩

theorem trans {env env' env'' : Env} (h : env.Kept env') (h' : env'.Kept env'') :
    env.Kept env'' :=
  ⟨h.scope.trans h'.scope, forall₂_trans .trans h.outer h'.outer⟩

theorem of_touched {env env' : Env} (h : TouchedScopes env.scopes env'.scopes) :
    env.Kept env' := by
  cases h with
  | cons hscope houter => exact ⟨.of_touched hscope, houter⟩

theorem defineVar (env : Env) (name : String) (v : Variable) :
    env.Kept (env.defineVar name v) :=
  ⟨⟨Table.keys_put .., List.prefix_rfl⟩, .refl _⟩

theorem defineFn (env : Env) (name : String) (s : Signature) :
    env.Kept (env.defineFn name s) :=
  ⟨⟨List.prefix_rfl, Table.keys_put ..⟩, .refl _⟩

/-- What is kept inside of a new scope is only touched outside of it. -/
theorem pop_touched {env env' : Env} (h : env.push.Kept env') :
    TouchedScopes env.scopes env'.pop.scopes := by
  obtain ⟨scope', outer'⟩ := env'
  obtain ⟨s, outer, hs, houter, rfl⟩ := List.forall₂_cons_left_iff.mp h.outer
  exact .cons hs houter

end Env.Kept

/-! ### What a check keeps -/

namespace Checker

/-- A relation that does not count sites is an account, if it holds whatever is recorded. -/
theorem Account.of_adds {R : Checker → Checker → Prop} (refl : ∀ c, R c c)
    (trans : ∀ {c d e : Checker}, R c d → R d e → R c e)
    (adds : ∀ {m : Mark} {c d : Checker}, Adds m c d → R c d)
    (env : ∀ (c : Checker) {env' : Env}, c.env.Kept env' → R c { c with env := env' })
    (scope : ∀ {c d : Checker}, R { c with env := c.env.push } d →
      R c { d with env := d.env.pop })
    (loop : ∀ {c d : Checker}, R { c with loopDepth := c.loopDepth + 1 } d →
      R c { d with loopDepth := d.loopDepth - 1 }) :
    Account anyKind fun _ => R where
  refl := refl
  trans := trans
  mono h _ := h
  report c _ _ _ := adds (adds_addDiagnostic c _)
  reportMatch c fault pos := adds (adds_finding c _)
  warn c _ _ _ _ := adds (adds_addWarning c _)
  warnSite c _ _ _ _ := adds (adds_addWarning c _)
  warnAlways c _ _ _ _ := adds (adds_warning c _)
  defineVar c name v := env c (.defineVar _ name v)
  markUsed c name := by
    refine env c (.of_touched ?_)
    rw [Env.scopes_markUsed]
    exact .markIn name _
  scope := scope
  loop := loop

/-- What a check keeps, inside of functions and outside. -/
structure Kept (c d : Checker) : Prop where
  env : c.env.Kept d.env
  loopDepth : d.loopDepth = c.loopDepth

theorem Kept.trans {c d e : Checker} (h : Kept c d) (h' : Kept d e) : Kept c e :=
  ⟨h.env.trans h'.env, h'.loopDepth.trans h.loopDepth⟩

theorem kept_account : Account anyKind fun _ => Kept := by
  refine .of_adds (fun c => ⟨.refl _, rfl⟩) Kept.trans ?_ (fun c _ h => ⟨h, rfl⟩) ?_ ?_
  · intro m c d h
    exact ⟨h.env ▸ .refl _, h.loopDepth⟩
  · intro c d h
    exact ⟨.of_touched h.env.pop_touched, h.loopDepth⟩
  · intro c d h
    refine ⟨h.env, ?_⟩
    show d.loopDepth - 1 = c.loopDepth
    rw [h.loopDepth]
    rfl

/-- What is to be returned stays, inside of a function or outside. -/
theorem returns_account : Account anyKind fun _ c d => d.returns? = c.returns? :=
  .of_adds (fun _ => rfl) (fun h h' => h'.trans h) Adds.returns? (fun _ _ _ => rfl) id id

end Checker

open CheckM Checker

/-- A function changes nothing in the scopes around it but marks of use. -/
theorem checkFunction_touched (fn : FnDecl) (c : Checker) :
    TouchedScopes c.env.scopes (checkFunction fn c).2.env.scopes := by
  have hinside : Kept { c with env := c.env.push }
      (functionInside fn { c with env := c.env.push }).2 :=
    functionInside_costs kept_account (fun _ _ => ⟨.refl _, rfl⟩) fn _
  exact hinside.env.pop_touched

/-! ### Programs -/

theorem Checker.check_kept (c : Checker) (p : Program) : Kept c (c.check p) := by
  have hkept := checkProgram_costs kept_account (fun _ _ => ⟨.refl _, rfl⟩)
    (fun _ _ _ => ⟨.defineFn .., rfl⟩) p { c with findings := [], warnings := [] }
  exact ⟨hkept.env, hkept.loopDepth⟩

theorem checkFunctions_returns (fns : List FnDecl) {c : Checker} (h : c.returns? = none) :
    (fns.forM checkFunction c).2.returns? = none := by
  induction fns generalizing c with
  | nil => exact h
  | cons fn fns ih =>
    -- The last thing that a function does is to forget what it returns.
    exact ih (c := (checkFunction fn c).2) rfl

theorem checkProgram_returns (p : Program) {c : Checker} (h : c.returns? = none) :
    (checkProgram p c).2.returns? = none := by
  have hR := returns_account
  have hdeclare : ∀ fn, Costs (fun _ c d => d.returns? = c.returns?) 0 (declare fn) :=
    fun fn => .free_bind hR (signatureOf_costs hR (fun _ _ => trivial) fn) fun _ _ => rfl
  have hdeclared := Costs.forM hR hdeclare p.functions c
  have himported := Costs.forM hR (fun name => defineVar_costs hR name { type := .any })
    (p.imports.flatMap Import.bound) (p.functions.forM declare c).2
  have hfunctions := checkFunctions_returns p.functions (himported.trans (hdeclared.trans h))
  exact (checkStmts_costs hR p.statements _).trans hfunctions

/-- No scope and no loop is open, and nothing is to be returned. -/
structure Checker.Resting (c : Checker) : Prop where
  outer : c.env.outer = []
  loopDepth : c.loopDepth = 0
  returns? : c.returns? = none

theorem Checker.Resting.check {c : Checker} (h : c.Resting) (p : Program) :
    (c.check p).Resting := by
  have hkept := c.check_kept p
  refine ⟨?_, hkept.loopDepth.trans h.loopDepth, checkProgram_returns p h.returns?⟩
  have houter := hkept.env.outer
  rw [h.outer] at houter
  exact List.forall₂_nil_left_iff.mp houter

theorem resting_foldl_check (ps : List Program) {c : Checker} (h : c.Resting) :
    (ps.foldl Checker.check c).Resting := by
  induction ps generalizing c with
  | nil => exact h
  | cons p ps ih => exact ih (h.check p)

theorem resting_new : Checker.new.Resting := ⟨by decide +kernel, rfl, rfl⟩

/-- **A check comes back to rest.**  After any programs, the outermost scope is the only one, no loop
is open and nothing is to be returned; the outermost scope never loses a name; and in no state does a
function change more than marks of use in the scopes around it. -/
theorem check_at_rest (ps : List Program) (p : Program) :
    (ps.foldl Checker.check Checker.new).Resting ∧
      (ps.foldl Checker.check Checker.new).env.scope.Extends
        ((ps.foldl Checker.check Checker.new).check p).env.scope ∧
      ∀ (fn : FnDecl) (c : Checker),
        TouchedScopes c.env.scopes (checkFunction fn c).2.env.scopes := by
  refine ⟨resting_foldl_check ps resting_new, ?_, checkFunction_touched⟩
  exact (Checker.check_kept _ p).env.scope

end Owl
