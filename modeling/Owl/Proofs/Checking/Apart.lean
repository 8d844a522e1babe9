/-
Expressions are checked apart from each other.

An expression declares nothing outside of its own scopes, so its check leaves the
names around it as they were, but for marks of use, which no check looks at.  What
an expression is and whether something is wrong with it is therefore the same
whichever expressions were checked before.

* `Checker.accepts`, `Checker.typeOf` — the check of an expression on its own.
-/
import Owl.Proofs.Checking.Order
import Owl.Proofs.Checking.Rest
import Owl.Proofs.Checking.Tracking

namespace Owl

/-! ### Declarations around a walk -/

/-- Whether a name is declared outside of the scopes that are entered, of which `n` are open. -/
def outward : Nat → List Event → Bool
  | _, [] => false
  | n, .enter :: es => outward (n + 1) es
  | n, .leave :: es => outward (n - 1) es
  | n, .declare .. :: es => n == 0 || outward n es
  | n, .use _ :: es | n, .call _ :: es | n, .assign _ :: es => outward n es

/-- A scope is left again before what follows it. -/
theorem outward_bracket {es : List Event}
    (h : ∀ n rest, outward n (es ++ rest) = (outward n es || outward n rest)) (n : Nat)
    (rest : List Event) :
    outward n (bracket es ++ rest) = (outward (n + 1) es || outward n rest) := by
  show outward (n + 1) ((es ++ [Event.leave]) ++ rest) = _
  rw [List.append_assoc, h]
  rfl

namespace Bracketed

variable {isOpen : Bool} {es es' : List Event}

theorem outward_append (h : Bracketed isOpen es) (n : Nat) (es' : List Event) :
    outward n (es ++ es') = (outward n es || outward n es') := by
  induction h generalizing n es' with
  | nil => rfl
  | @lookup isOpen e es he _ ih =>
    cases e with
    | enter | leave | declare => cases he
    | use | call | assign => exact ih n es'
  | declare _ ih =>
    show (n == 0 || outward n (_ ++ es')) = (n == 0 || outward n _ || outward n es')
    rw [ih, Bool.or_assoc]
  | scope _ _ ih ih' =>
    rw [List.append_assoc, outward_bracket ih, outward_bracket ih, ih', Bool.or_assoc]

/-- Inside of an open scope nothing is declared around it. -/
theorem outward_succ (h : Bracketed isOpen es) (n : Nat) : outward (n + 1) es = false := by
  induction h generalizing n with
  | nil => rfl
  | @lookup isOpen e es he _ ih =>
    cases e with
    | enter | leave | declare => cases he
    | use | call | assign => exact ih n
  | declare _ ih => exact ih n
  | scope hes _ ih ih' =>
    rw [outward_bracket hes.outward_append, ih, ih']
    rfl

/-- Closed events declare nothing around them. -/
theorem outward_zero (h : Bracketed isOpen es) (hclosed : isOpen = false) :
    outward 0 es = false := by
  induction h with
  | nil => rfl
  | @lookup isOpen e es he _ ih =>
    cases e with
    | enter | leave | declare => cases he
    | use | call | assign => exact ih hclosed
  | declare => cases hclosed
  | scope hes _ _ ih =>
    rw [outward_bracket hes.outward_append, hes.outward_succ, ih hclosed]
    rfl

end Bracketed

/-! ### Scopes that are left as they were -/

/-- From an environment to a later one, names stand for the same things in the scopes around the
innermost one, and in the innermost one too if nothing was declared in it. -/
structure Env.Left (declared : Bool) (env env' : Env) : Prop where
  outer : LikeScopes env.outer env'.outer
  scope : declared = false → env.scope.Like env'.scope

namespace Env.Left

variable {declared declared' : Bool} {env env' env'' : Env}

theorem of_like (h : LikeScopes env.scopes env'.scopes) : env.Left declared env' := by
  cases h with
  | cons hscope houter => exact ⟨houter, fun _ => hscope⟩

theorem refl (env : Env) : env.Left declared env := .of_like (.refl _)

theorem trans (h : env.Left declared env') (h' : env'.Left declared' env'') :
    env.Left (declared || declared') env'' := by
  refine ⟨h.outer.trans h'.outer, fun hnone => ?_⟩
  obtain ⟨hfirst, hsecond⟩ := Bool.or_eq_false_iff.1 hnone
  exact (h.scope hfirst).trans (h'.scope hsecond)

theorem markUsed (h : env.Left declared env') (name : String) :
    env.Left declared (env'.markUsed name) := by
  have hmarked : env'.Left false (env'.markUsed name) := by
    refine .of_like ?_
    rw [scopes_markUsed]
    exact (LikeScopes.markIn name _).symm
  rw [← Bool.or_false declared]
  exact h.trans hmarked

/-- Whatever is declared in a new scope, the scopes outside of it are left. -/
theorem pop (h : env.push.Left declared env') : env.Left declared' env'.pop := by
  refine .of_like ?_
  obtain ⟨scope', outer'⟩ := env'
  obtain ⟨s, outer, hs, houter, rfl⟩ := List.forall₂_cons_left_iff.mp h.outer
  exact .cons hs houter

end Env.Left

open Checker CheckM

/-- A check leaves the scopes around it, and its own one if its events declare nothing in it. -/
theorem Env.left_tracking : Env.Tracking fun es env env' => env.Left (outward 0 es) env' where
  skip _ env := .refl env
  trans hes h h' := by
    rw [hes.outward_append]
    exact h.trans h'
  declare _ _ _ := ⟨.refl _, nofun⟩
  markUsed h _ := h.markUsed _
  scope _ h := h.pop

/-! ### Expressions on their own -/

namespace Checker

/-- States in which names stand for the same things, at the same place of a function. -/
structure SameNames (c d : Checker) : Prop where
  env : LikeScopes c.env.scopes d.env.scopes
  returns? : d.returns? = c.returns?
  loopDepth : d.loopDepth = c.loopDepth

theorem SameNames.trans {c d d' : Checker} (h : SameNames c d) (h' : SameNames d d') :
    SameNames c d' :=
  ⟨h.env.trans h'.env, h'.returns?.trans h.returns?, h'.loopDepth.trans h.loopDepth⟩

def cleared (c : Checker) : Checker := { c with findings := [], warnings := [] }

theorem SameNames.of_cleared (c : Checker) : SameNames c c.cleared := ⟨.refl _, rfl, rfl⟩

def typeOf (c : Checker) (e : Expr) : Ty := (checkExpr e c.cleared).1

/-- Whether nothing is found in an expression that is checked on its own. -/
def accepts (c : Checker) (e : Expr) : Bool := (checkExpr e c.cleared).2.findings.isEmpty

theorem accepts_eq_true_iff {c : Checker} {e : Expr} :
    c.accepts e = true ↔ (checkExpr e c.cleared).2.findings = [] := List.isEmpty_iff

/-- What was recorded before stays, and what is found on its own comes to it. -/
theorem SameNames.alongside {c d : Checker} (h : SameNames c d) :
    Alongside Env.Like d.Recorded c.returns? d.env.outer.length c.loopDepth d c.cleared where
  env := ⟨h.env.symm, rfl⟩
  returns := ⟨h.returns?, rfl⟩
  loops := ⟨h.loopDepth, rfl⟩
  recorded m := by
    have hnone : ¬ c.cleared.Recorded m := by
      rintro (hfinding | hwarning)
      · cases hfinding
      · cases hwarning
    exact ⟨Or.inl, fun hm => hm.resolve_right hnone⟩

end Checker

/-- In states that are alike, an expression has one type, and is accepted in both or in none. -/
theorem checkExpr_apart {c d : Checker} (h : c.SameNames d) (e : Expr) :
    (checkExpr e d).1 = c.typeOf e ∧
      ((checkExpr e d).2.findings = [] ↔ d.findings = [] ∧ c.accepts e = true) := by
  have hsteady : Steady (Alongside Env.Like d.Recorded c.returns?) (checkExpr e) :=
    (@checkExpr_walks False False e nofun).steady
      (alongside_congruence Env.like_congruence d.Recorded c.returns?) nofun
  obtain ⟨htype, hstate⟩ := hsteady h.alongside
  refine ⟨htype, ?_⟩
  rw [accepts_eq_true_iff, findings_eq_nil_iff, findings_eq_nil_iff, findings_eq_nil_iff]
  simp only [hstate.recorded, not_or, forall_and]

theorem checkExpr_sameNames {e : Expr} (h : e.Ordinary) (c : Checker) :
    c.SameNames (checkExpr e c).2 := by
  have hclosed := (e.events_closed .checked h).outward_zero rfl
  have hleft := (@checkExpr_walks True False e fun _ => h).tracks Env.left_tracking c
  refine ⟨.cons (hleft.scope hclosed) hleft.outer, ?_, ?_⟩
  · exact checkExpr_costs returns_account e c
  · exact (checkExpr_costs kept_account e c).loopDepth

/-- Expressions that are checked one after the other have the types that they have on their own, and
nothing is found if nothing is found in one of them. -/
theorem checkExprs_apart {c d : Checker} {es : List Expr} (hes : ∀ e ∈ es, e.Ordinary)
    (h : c.SameNames d) :
    (checkExprs es d).1 = es.map c.typeOf ∧
      ((checkExprs es d).2.findings = [] ↔ d.findings = [] ∧ ∀ e ∈ es, c.accepts e = true) := by
  induction es generalizing d with
  | nil =>
    have hnone : ∀ e ∈ ([] : List Expr), c.accepts e = true := nofun
    exact ⟨rfl, ⟨fun hnil => ⟨hnil, hnone⟩, And.left⟩⟩
  | cons e es ih =>
    obtain ⟨hfirst, hrest⟩ := List.forall_mem_cons.mp hes
    obtain ⟨htype, hnil⟩ := checkExpr_apart h e
    obtain ⟨htypes, hnils⟩ := ih hrest (h.trans (checkExpr_sameNames hfirst d))
    rw [hnil] at hnils
    refine ⟨congrArg₂ List.cons htype htypes, ?_⟩
    rw [List.forall_mem_cons, ← and_assoc]
    exact hnils

end Owl
