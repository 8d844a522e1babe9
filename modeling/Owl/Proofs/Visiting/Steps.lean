/-
How a check goes through a program.

A check comes to a fragment of a program in some state, and goes on from there to
the fragments that it is made of, each in a state of its own.  `Fragment.Step` has
one rule for each position in which something is looked at, with what has to hold
for that; `Program.Visits` says that the check comes to an expression.

* `Step.events`, `Visits.events` — what a fragment does with names, the program does.
-/
import Mathlib.Logic.Relation
import Owl.Proofs.Checking.Accepted

namespace Owl

open CheckM

variable {c d : Checker} {name : String} {place : Span}

/-! ### Fragments -/

/-- What a check goes through in one go. -/
inductive Fragment
  | expr (e : Expr)
  | exprs (es : List Expr)
  /-- The arms of a match whose subject has a type. -/
  | arms (subject : Ty) (choices : List Arm)
  | stmt (use : Use) (s : Stmt)
  | stmts (ss : List Stmt)
  /-- The last of some statements, which is used for its value. -/
  | last (ss : List Stmt)
  /-- All of some statements but the last. -/
  | init (ss : List Stmt)
  /-- What is left of the body of a function, and whether the function returns before it. -/
  | body (returned : Bool) (ss : List Stmt)

def Fragment.run (c : Checker) : Fragment → Checker
  | expr e => (checkExpr e c).2
  | exprs es => (checkExprs es c).2
  | arms subject choices => (checkArms subject choices c).2
  | stmt use s => (checkStmt use s c).2
  | stmts ss => (checkStmts ss c).2
  | last ss => (checkLast ss c).2
  | init ss => (checkInit ss c).2
  | body returned ss => (checkBody returned ss c).2

/-- What a fragment does with names when it is checked. -/
def Fragment.events : Fragment → List Event
  | expr e => e.events .checked
  | exprs es => exprsEvents .checked es
  | arms _ choices => armsEvents .checked choices
  | stmt use s => s.events .checked use
  | stmts ss => stmtsEvents .checked ss
  | last ss => lastEvents .checked ss
  | init ss => initEvents .checked ss
  | body _ ss => bodyEvents .checked ss

def Expr.isComputed : Expr → Bool
  | .name .. | .field .. => false
  | _ => true

/-! ### States -/

/-- Whether a call by name is seen to have a wrong number of arguments. -/
def Checker.miscounts (c : Checker) (name : String) (count : Nat) : Bool :=
  if (ValueConstructor.find? name).isSome then name != "None" && count != 1
  else if name == "get" || name == "push" then count != 2
  else (c.env.fn? name).any fun signature =>
    signature.params != [.any] && count != signature.params.length

/-- The state in which the arguments of a call by name are looked at, if they are. -/
def argsState? (name : String) (count : Nat) (place : Span) (c : Checker) : Option Checker :=
  if (ValueConstructor.find? name).isSome then
    if name != "None" && count == 1 then some c else none
  else if name == "get" || name == "push" then
    if count == 2 then some c else none
  else match c.env.fn? name with
  | some signature =>
    if signature.params != [.any] && count != signature.params.length then
      some (report (.wrongArgCount name signature.params.length count) place c).2
    else some c
  | none => if (c.env.var? name).any (·.type == .any) then some c else none

/-- The state in which the body of an arm is looked at. -/
def armState (subject : Ty) (pattern : Pattern) (c : Checker) : Checker :=
  match patternBinding? subject pattern with
  | some (binding, type) => { c with env := c.env.push.defineVar binding { type } }
  | none => { c with env := c.env.push }

/-- The state in which the body of a loop over a collection is looked at. -/
def forState (item : String) (element : Ty) (span? : Option Span) (c : Checker) : Checker :=
  { c with
    env := c.env.push.defineVar item { type := element, span? }
    loopDepth := c.loopDepth + 1 }

def bodyState (returned : Bool) (s : Stmt) (c : Checker) : Checker :=
  if returned then (warn .unreachable s.span? c).2 else c

/-! ### Steps -/

/-- A check that comes to a fragment in a state goes on to another fragment in another state. -/
inductive Fragment.Step : Fragment × Checker → Fragment × Checker → Prop
  | left {l op r span? c} : Step (.expr (.binary l op r span?), c) (.expr l, c)
  | right {l op r span? c} : Step (.expr (.binary l op r span?), c) (.expr r, (checkExpr l c).2)
  | operand {op e span? c} : Step (.expr (.unary op e span?), c) (.expr e, c)
  | namedArgs {name nameSpan? args span? c d}
      (hseen : argsState? name args.length (span?.getD .dummy) c = some d) :
      Step (.expr (.call (.name name nameSpan?) args span?), c) (.exprs args, d)
  | fieldCallee {object field fieldSpan? args span? c} :
      Step (.expr (.call (.field object field fieldSpan?) args span?), c)
        (.expr (.field object field fieldSpan?), c)
  | fieldArgs {object field fieldSpan? args span? c} :
      Step (.expr (.call (.field object field fieldSpan?) args span?), c)
        (.exprs args, (checkExpr object c).2)
  | computedArgs {callee args span? c} (hcallee : callee.isComputed = true) :
      Step (.expr (.call callee args span?), c) (.exprs args, c)
  | object {object field span? c} : Step (.expr (.field object field span?), c) (.expr object, c)
  | question {e span? c} : Step (.expr (.propagate e span?), c) (.expr e, c)
  | elements {es span? c} : Step (.expr (.list es span?), c) (.exprs es, c)
  | subject {subject arms span? c} :
      Step (.expr (.matching subject arms span?), c) (.expr subject, c)
  | arms {subject arms span? c}
      (hpatterns : (expectedPatterns (checkExpr subject c).1).isEmpty = false) :
      Step (.expr (.matching subject arms span?), c)
        (.arms (checkExpr subject c).1 arms, (checkExpr subject c).2)
  | firstExpr {e es c} : Step (.exprs (e :: es), c) (.expr e, c)
  | restExprs {e es c} : Step (.exprs (e :: es), c) (.exprs es, (checkExpr e c).2)
  | firstArm {subject pattern body span? arms c}
      (hfits : (expectedPatterns subject).contains pattern.name = true) :
      Step (.arms subject (⟨pattern, body, span?⟩ :: arms), c)
        (.expr body, armState subject pattern c)
  | restArms {subject pattern body span? arms c} :
      Step (.arms subject (⟨pattern, body, span?⟩ :: arms), c)
        (.arms subject arms, (armRule subject pattern (checkExpr body) c).2)
  | letValue {use name value type? isMutable span? c} :
      Step (.stmt use (.letVar name value type? isMutable span?), c) (.expr value, c)
  | assigned {use name value span? c v} (hvar : c.env.var? name = some v)
      (hmutable : v.isMutable = true) :
      Step (.stmt use (.assign name value span?), c) (.expr value, c)
  | exprStmt {use e span? c} : Step (.stmt use (.expr e span?), c) (.expr e, c)
  | returned {use e span? c} : Step (.stmt use (.ret (some e) span?), c) (.expr e, c)
  | whileCondition {use condition body span? c} :
      Step (.stmt use (.whileLoop condition body span?), c) (.expr condition, c)
  | whileBody {use condition body span? c d}
      (hd : (conditionRule condition (checkExpr condition) c).2 = d) :
      Step (.stmt use (.whileLoop condition body span?), c)
        (.stmts body, { d with loopDepth := d.loopDepth + 1 })
  | collection {use item collection body span? c} :
      Step (.stmt use (.forLoop item collection body span?), c) (.expr collection, c)
  | forBody {use item collection body span? c element d}
      (hd : elementRule (checkExpr collection c).1 collection.place (checkExpr collection c).2 =
        (element, d)) :
      Step (.stmt use (.forLoop item collection body span?), c)
        (.stmts body, forState item element span? d)
  | loopBody {use body span? c} :
      Step (.stmt use (.loop body span?), c)
        (.stmts body, { c with loopDepth := c.loopDepth + 1 })
  | condition {use condition thenBody elseBody? span? c} :
      Step (.stmt use (.ifElse condition thenBody elseBody? span?), c) (.expr condition, c)
  | thenBody {condition thenBody elseBody? span? c} :
      Step (.stmt .effect (.ifElse condition thenBody elseBody? span?), c)
        (.stmts thenBody, (conditionRule condition (checkExpr condition) c).2)
  | elseBody {condition thenBody elseBody span? c d}
      (hd : (conditionRule condition (checkExpr condition) c).2 = d) :
      Step (.stmt .effect (.ifElse condition thenBody (some elseBody) span?), c)
        (.stmts elseBody, (checkStmts thenBody d).2)
  | thenLast {condition thenBody elseBody? span? c} :
      Step (.stmt .value (.ifElse condition thenBody elseBody? span?), c)
        (.last thenBody, (conditionRule condition (checkExpr condition) c).2)
  | thenInit {condition thenBody elseBody? span? c d}
      (hd : (conditionRule condition (checkExpr condition) c).2 = d) :
      Step (.stmt .value (.ifElse condition thenBody elseBody? span?), c)
        (.init thenBody, (checkLast thenBody d).2)
  | elseLast {condition thenBody elseBody span? c d}
      (hd : (branchRule (checkLast thenBody) (checkInit thenBody)
        (conditionRule condition (checkExpr condition) c).2).2 = d) :
      Step (.stmt .value (.ifElse condition thenBody (some elseBody) span?), c)
        (.last elseBody, d)
  | elseInit {condition thenBody elseBody span? c d}
      (hd : (branchRule (checkLast thenBody) (checkInit thenBody)
        (conditionRule condition (checkExpr condition) c).2).2 = d) :
      Step (.stmt .value (.ifElse condition thenBody (some elseBody) span?), c)
        (.init elseBody, (checkLast elseBody d).2)
  | firstStmt {s rest c} : Step (.stmts (s :: rest), c) (.stmt .effect s, c)
  | restStmts {s rest c} : Step (.stmts (s :: rest), c) (.stmts rest, (checkStmt .effect s c).2)
  | lastStmt {s c} : Step (.last [s], c) (.stmt .value s, c)
  | restLast {s s' rest c} : Step (.last (s :: s' :: rest), c) (.last (s' :: rest), c)
  | firstInit {s s' rest c} : Step (.init (s :: s' :: rest), c) (.stmt .effect s, c)
  | restInit {s s' rest c} :
      Step (.init (s :: s' :: rest), c) (.init (s' :: rest), (checkStmt .effect s c).2)
  | firstOfBody {returned s rest c} :
      Step (.body returned (s :: rest), c) (.stmt .value s, bodyState returned s c)
  | restOfBody {returned s s' rest c d type returns}
      (hd : checkBodyStmt false s (bodyState returned s c) = ((type, returns), d)) :
      Step (.body returned (s :: s' :: rest), c) (.body (returned || returns) (s' :: rest), d)

/-! ### What stays recorded -/

/-- The second state has recorded whatever the first one has. -/
def Checker.Retains (c d : Checker) : Prop := ∀ m, c.Recorded m → d.Recorded m

theorem Checker.Retains.refl (c : Checker) : c.Retains c := fun _ h => h

theorem Checker.Retains.trans {e : Checker} (h : c.Retains d) (h' : d.Retains e) : c.Retains e :=
  fun m hm => h' m (h m hm)

theorem Checker.retains_account : Account anyKind fun _ => Retains :=
  .of_adds .refl .trans (fun h k hk => (h.recorded k).mpr (.inl hk)) (fun _ _ _ _ h => h) id id

theorem Checker.Retains.findings (h : c.Retains d) (hnil : d.findings = []) : c.findings = [] :=
  findings_eq_nil_iff.mpr fun code pos hm => findings_eq_nil_iff.mp hnil code pos (h _ hm)

def CheckM.Keeps {α : Type} (p : CheckM α) : Prop := ∀ c : Checker, c.Retains (p c).2

section Keeps

open Checker

variable {α β : Type} {es : List Event} {s : Multiset Site} {p q : CheckM α} {f : α → CheckM β}

theorem CheckM.Walks.keeps {K : Kinds} (h : Walks False True K es s p q) : Keeps p :=
  h.wide.costs retains_account

theorem CheckM.Keeps.of_adds {m : Mark} (h : ∀ c, Adds m c (p c).2) : Keeps p :=
  fun c k hk => ((h c).recorded k).mpr (.inl hk)

theorem CheckM.Keeps.pure (a : α) : Keeps (Pure.pure a) := .refl

theorem CheckM.Keeps.bind (hp : Keeps p) (hf : ∀ a, Keeps (f a)) : Keeps (p >>= f) :=
  fun c => (hp c).trans (hf _ _)

theorem CheckM.Keeps.map (hp : Keeps p) (g : α → β) : Keeps (p >>= fun a => Pure.pure (g a)) :=
  hp.bind fun _ => .pure _

theorem CheckM.Keeps.ite {P : Prop} [Decidable P] (hp : Keeps p) (hq : Keeps q) :
    Keeps (if P then p else q) := by
  split
  · exact hp
  · exact hq

theorem CheckM.Keeps.inLoop (hp : Keeps p) : Keeps (inLoop p) :=
  fun c => hp { c with loopDepth := c.loopDepth + 1 }

/-- What the first of two actions records is there behind the second. -/
theorem CheckM.Keeps.behind (hf : ∀ a, Keeps (f a)) (c : Checker) :
    (p c).2.Retains ((p >>= f) c).2 :=
  hf _ _

/-- A finding of the first of two actions is there behind the second. -/
theorem CheckM.Keeps.of_bind (hf : ∀ a, Keeps (f a)) (hnil : ((p >>= f) c).2.findings = []) :
    (p c).2.findings = [] :=
  (hf _ _).findings hnil

theorem report_keeps (problem : Problem) (place : Span) : Keeps (report problem place) :=
  report_costs retains_account trivial

theorem checkExpr_keeps (e : Expr) : Keeps (checkExpr e) := checkExpr_costs retains_account e

theorem checkExprs_keeps (es : List Expr) : Keeps (checkExprs es) :=
  checkExprs_costs retains_account es

theorem checkArms_keeps (subject : Ty) (arms : List Arm) : Keeps (checkArms subject arms) :=
  checkArms_costs retains_account subject arms

theorem checkStmts_keeps (ss : List Stmt) : Keeps (checkStmts ss) :=
  checkStmts_costs retains_account ss

theorem checkInit_keeps (ss : List Stmt) : Keeps (checkInit ss) :=
  (checkInit_walks ss False.elim).keeps

theorem branch_keeps (ss : List Stmt) : Keeps (branchRule (checkLast ss) (checkInit ss)) :=
  (branchRule_walks (checkLast_walks ss False.elim) (checkInit_walks ss False.elim)).keeps

theorem checkBody_keeps (returned : Bool) (ss : List Stmt) : Keeps (checkBody returned ss) :=
  checkBody_costs retains_account returned ss

end Keeps

theorem reported_ne_nil {α : Type} (problem : Problem) (place : Span) (a : α) (c : Checker) :
    ((do report problem place; pure a : CheckM α) c).2.findings ≠ [] :=
  Checker.findings_addDiagnostic_ne_nil _ _

/-- What a call by name can do with the types of its arguments. -/
inductive ArgsRule : (List Ty → CheckM Ty) → Prop
  | pure (type : List Ty → Ty) : ArgsRule fun types => Pure.pure (type types)
  | get (listPlace indexPlace : Span) : ArgsRule fun types => getRule types listPlace indexPlace
  | push (listPlace valuePlace : Span) : ArgsRule fun types => pushRule types listPlace valuePlace

/-- What a call by name can come to: its name or the number of its arguments is reported, or its
arguments are looked at, or both. -/
inductive CallRun (name : String) (count : Nat) (args : CheckM (List Ty)) (place : Span)
    (c : Checker) : Ty × Checker → Prop
  | undefined (type : Ty) (hargs : argsState? name count place c = none)
      (hcount : c.miscounts name count = false) :
      CallRun name count args place c
        ((do report (.undefinedFunction name) place; pure type : CheckM Ty) c)
  | refused (expected : Nat) (type : Ty) (hargs : argsState? name count place c = none)
      (hcount : c.miscounts name count = true) :
      CallRun name count args place c
        ((do report (.wrongArgCount name expected count) place; pure type : CheckM Ty) c)
  | miscounted (expected : Nat) (type : Ty)
      (hargs : argsState? name count place c =
        some (report (.wrongArgCount name expected count) place c).2)
      (hcount : c.miscounts name count = true) :
      CallRun name count args place c
        ((do let _ ← args; pure type : CheckM Ty)
          (report (.wrongArgCount name expected count) place c).2)
  | passed {rule : List Ty → CheckM Ty} (hargs : argsState? name count place c = some c)
      (hcount : c.miscounts name count = false) (hrule : ArgsRule rule) :
      CallRun name count args place c ((args >>= rule) c)

theorem constructorRule_run (hname : (ValueConstructor.find? name).isSome = true) (count : Nat)
    (args : CheckM (List Ty)) (place : Span) (c : Checker) :
    CallRun name count args place c (constructorRule name count args place c) := by
  rw [constructorRule]
  by_cases hnone : name = "None"
  · subst hnone
    exact .undefined _ (by simp [argsState?, hname]) (by simp [Checker.miscounts, hname])
  · rw [if_neg (by simpa using hnone)]
    by_cases hone : count = 1
    · rw [if_pos (by simpa using hone)]
      exact .passed (by simp [argsState?, hname, hnone, hone])
        (by simp [Checker.miscounts, hname, hone]) (.pure _)
    · rw [if_neg (by simpa using hone)]
      exact .refused 1 _ (by simp [argsState?, hname, hone])
        (by simp [Checker.miscounts, hname, hnone, hone])

/-- `get` and `push` take two arguments. -/
theorem pairRule_run (hname : (ValueConstructor.find? name).isSome = false)
    (hpair : name = "get" ∨ name = "push") {rule : List Ty → CheckM Ty} (hrule : ArgsRule rule)
    (count : Nat) (type : Ty) (args : CheckM (List Ty)) (place : Span) (c : Checker) :
    CallRun name count args place c ((do
      if count == 2 then rule (← args)
      else
        report (.wrongArgCount name 2 count) place
        return type : CheckM Ty) c) := by
  by_cases htwo : count = 2
  · rw [if_pos (by simpa using htwo)]
    exact .passed (by simp [argsState?, hname, hpair, htwo])
      (by simp [Checker.miscounts, hname, hpair, htwo]) hrule
  · rw [if_neg (by simpa using htwo)]
    exact .refused 2 _ (by simp [argsState?, hname, hpair, htwo])
      (by simp [Checker.miscounts, hname, hpair, htwo])

theorem functionRule_run (hname : (ValueConstructor.find? name).isSome = false)
    (hget : name ≠ "get") (hpush : name ≠ "push") (count : Nat) (args : CheckM (List Ty))
    (place : Span) (c : Checker) :
    CallRun name count args place c (functionRule name count args place c) := by
  cases hfn : c.env.fn? name with
  | some signature =>
    rw [functionRule_of_some hfn]
    split
    · next hcount =>
      exact .miscounted _ _ (by simp [argsState?, hname, hget, hpush, hfn, hcount])
        (by simp [Checker.miscounts, hname, hget, hpush, hfn, hcount])
    · next hcount =>
      exact .passed (by simp [argsState?, hname, hget, hpush, hfn, hcount])
        (by simp [Checker.miscounts, hname, hget, hpush, hfn, hcount]) (.pure fun _ => _)
  | none =>
    rw [functionRule_of_none hfn]
    have hcount : c.miscounts name count = false := by
      simp [Checker.miscounts, hname, hget, hpush, hfn]
    split
    · next hany =>
      exact .passed (by simp [argsState?, hname, hget, hpush, hfn, hany]) hcount (.pure fun _ => _)
    · next hany => exact .undefined _ (by simp [argsState?, hname, hget, hpush, hfn, hany]) hcount

theorem callRule_run (name : String) (places : List Span) (args : CheckM (List Ty)) (place : Span)
    (c : Checker) :
    CallRun name places.length args place c (callRule name places args place c) := by
  rw [callRule]
  cases hname : (ValueConstructor.find? name).isSome with
  | true => exact constructorRule_run hname _ _ _ _
  | false =>
    rw [if_neg Bool.false_ne_true]
    split
    · next hget => exact pairRule_run hname (.inl (by simpa using hget)) (.get _ _) _ _ _ _ _
    · next hget =>
      split
      · next hpush => exact pairRule_run hname (.inr (by simpa using hpush)) (.push _ _) _ _ _ _ _
      · next hpush =>
        exact functionRule_run hname (by simpa using hget) (by simpa using hpush) _ _ _ _

/-- Where a call by name finds nothing, its arguments are looked at in the state it is in. -/
theorem argsState?_of_findings {places : List Span} {args : CheckM (List Ty)} (hargs : Keeps args)
    (hnil : (callRule name places args place c).2.findings = []) :
    argsState? name places.length place c = some c ∧ (args c).2.findings = [] := by
  have hrun := callRule_run name places args place c
  generalize callRule name places args place c = r at hrun hnil
  cases hrun with
  | undefined | refused => exact absurd hnil (reported_ne_nil _ _ _ _)
  | miscounted expected type hseen hcount =>
    -- The arguments are checked behind the report, and add to it.
    have hreported := (hargs.map (fun _ => type) _).findings hnil
    exact absurd hreported (Checker.findings_addDiagnostic_ne_nil _ _)
  | passed hseen hcount hrule =>
    refine ⟨hseen, Keeps.of_bind (fun types => ?_) hnil⟩
    cases hrule with
    | pure type => exact .pure _
    | get => exact (getRule_walks _ _ _ .dummy .dummy).keeps
    | push => exact (pushRule_walks _ _ _ .dummy .dummy).keeps

theorem checkExpr_computed {callee : Expr} (h : callee.isComputed = true) (args : List Expr)
    (span? : Option Span) :
    checkExpr (.call callee args span?) = do
      let _ ← checkExprs args
      return .unknown := by
  cases callee with
  | name | field => cases h
  | _ => simp only [checkExpr]

theorem checkBody_cons (returned : Bool) (s : Stmt) (rest : List Stmt) (c : Checker) :
    checkBody returned (s :: rest) c = (do
      let r ← checkBodyStmt rest.isEmpty s
      if rest.isEmpty then return (r.1, returned || r.2)
      else checkBody (returned || r.2) rest : CheckM (Ty × Bool)) (bodyState returned s c) := by
  cases returned <;> rfl

theorem checkBodyStmt_returns (isLast : Bool) (s : Stmt) (c : Checker) :
    (checkBodyStmt isLast s c).1.2 = s.returns := by
  cases s with
  | expr e span? =>
    show ((ite .. : CheckM (Ty × Bool)) _).1.2 = false
    split <;> rfl
  | _ => rfl

/-- Behind a body it is known whether some statement returns. -/
theorem checkBody_returned (ss : List Stmt) (returned : Bool) (c : Checker) :
    (checkBody returned ss c).1.2 = (returned || anyReturns ss) := by
  induction ss generalizing returned c with
  | nil => exact (Bool.or_false _).symm
  | cons s rest ih =>
    rw [checkBody_cons, anyReturns, ← Bool.or_assoc,
      ← checkBodyStmt_returns rest.isEmpty s (bodyState returned s c)]
    cases rest with
    | nil => exact (Bool.or_false _).symm
    | cons => exact ih ..

/-! ### Parts and wholes -/

section Parts

open Checker

theorem condition_retains (condition : Expr) (c : Checker) :
    (checkExpr condition c).2.Retains (conditionRule condition (checkExpr condition) c).2 :=
  (conditionRule_walks (s := 0) (K := anyKind) trivial condition
    (.pure (checkExpr condition c).1)).keeps (checkExpr condition c).2

/-- A new value is looked at before it is judged. -/
theorem assignRule_retains {v : Variable} (hvar : c.env.var? name = some v)
    (hmutable : v.isMutable = true) (value : CheckM Ty) (place : Span) :
    (value c).2.Retains (assignRule name value place c).2 := by
  rw [assignRule_of_some hvar, hmutable]
  refine Keeps.behind (fun type => .ite (fun _ => .refl _) ?_) c
  exact (report_keeps _ _).bind fun _ _ => .refl _

/-- The arguments of a call by name are looked at before the call is judged. -/
theorem callRule_retains {places : List Span} {args : CheckM (List Ty)}
    (hseen : argsState? name places.length place c = some d) :
    (args d).2.Retains (callRule name places args place c).2 := by
  have hrun := callRule_run name places args place c
  generalize callRule name places args place c = r at hrun
  cases hrun with
  | undefined type hargs | refused expected type hargs =>
    rw [hargs] at hseen
    cases hseen
  | miscounted expected type hargs =>
    rw [hargs] at hseen
    cases hseen
    exact .refl _
  | passed hargs hcount hrule =>
    rw [hargs] at hseen
    cases hseen
    refine Keeps.behind (fun types => ?_) c
    cases hrule with
    | pure type => exact .pure _
    | get => exact (getRule_walks types _ _ .dummy .dummy).keeps
    | push => exact (pushRule_walks types _ _ .dummy .dummy).keeps

/-- The body of an arm whose pattern fits is looked at in a scope of its own. -/
theorem armRule_retains {subject : Ty} {pattern : Pattern} {body : CheckM Ty}
    (hfits : (expectedPatterns subject).contains pattern.name = true) :
    (body (armState subject pattern c)).2.Retains (armRule subject pattern body c).2 := by
  rw [armRule, if_pos hfits, armState]
  cases hbinding : patternBinding? subject pattern with
  | none => exact .refl _
  | some binding => exact .refl _

/-- Behind the first branch of a choice used for its value only more is recorded. -/
theorem branch_retains (condition : Expr) (thenBody : List Stmt)
    (elseBody? : Option (List Stmt)) (span? : Option Span) (c : Checker) :
    (branchRule (checkLast thenBody) (checkInit thenBody)
      (conditionRule condition (checkExpr condition) c).2).2.Retains
        (checkStmt .value (.ifElse condition thenBody elseBody? span?) c).2 := by
  rcases elseBody? with _ | _ | ⟨s, rest⟩
  · exact .refl _
  · exact .refl _
  · exact ((branch_keeps (s :: rest)).bind fun _ => (choiceRule_walks ..).keeps) _

theorem elseBranch_retains (condition : Expr) (thenBody elseBody : List Stmt)
    (span? : Option Span) (c : Checker) :
    (branchRule (checkLast elseBody) (checkInit elseBody)
      (branchRule (checkLast thenBody) (checkInit thenBody)
        (conditionRule condition (checkExpr condition) c).2).2).2.Retains
          (checkStmt .value (.ifElse condition thenBody (some elseBody) span?) c).2 := by
  cases elseBody with
  | nil =>
    have hthen := branch_retains condition thenBody (some []) span? c
    simp only [branchRule, checkLast, checkInit] at hthen ⊢
    exact hthen
  | cons s rest =>
    exact (choiceRule_walks ..).keeps _

/-- Behind the condition of a choice only more is recorded. -/
theorem condition_retains_of_ifElse (use : Use) (condition : Expr) (thenBody : List Stmt)
    (elseBody? : Option (List Stmt)) (span? : Option Span) (c : Checker) :
    (conditionRule condition (checkExpr condition) c).2.Retains
      (checkStmt use (.ifElse condition thenBody elseBody? span?) c).2 := by
  cases use with
  | effect =>
    cases elseBody? with
    | none =>
      exact Keeps.behind (fun _ => (checkStmts_keeps _).map _) _
    | some elseBody =>
      exact Keeps.behind (fun _ => (checkStmts_keeps _).bind fun _ => (checkStmts_keeps _).map _) _
  | value => exact (branch_keeps thenBody _).trans (branch_retains _ _ _ _ _)

theorem bodyStmt_retains (isLast : Bool) (s : Stmt) (c : Checker) :
    (checkStmt .value s c).2.Retains (checkBodyStmt isLast s c).2 := by
  refine Keeps.behind (fun type => ?_) c
  cases s with
  | expr e span? =>
    have hignored : Keeps (ignoredRule type e.place) := (ignoredRule_walks _ _ .dummy).keeps
    exact fun d => Keeps.ite (.pure _) (hignored.map _) d
  | _ => exact .pure _

end Parts

namespace Fragment.Step

variable {x y : Fragment × Checker}

/-- What a fragment records, the fragment around it leaves recorded. -/
theorem retains (h : Step x y) : (y.1.run y.2).Retains (x.1.run x.2) := by
  cases h with
  | left =>
    refine Keeps.behind (fun _ => (checkExpr_keeps _).bind fun _ => ?_) _
    exact (binaryRule_walks ..).keeps
  | right =>
    exact (binaryRule_walks ..).keeps _
  | operand =>
    exact (unaryRule_walks ..).keeps _
  | namedArgs hseen =>
    refine callRule_retains ?_
    rwa [List.length_map]
  | fieldCallee =>
    exact (checkExprs_keeps _).map (fun _ => Ty.any) _
  -- Nothing is checked behind these.
  | fieldArgs | object | restExprs | restArms | exprStmt | restStmts | lastStmt | restLast |
    restInit =>
    exact .refl _
  | computedArgs hcallee =>
    simp only [run, checkExpr_computed hcallee]
    exact .refl _
  | question =>
    exact (propagateRule_walks ..).keeps _
  | elements =>
    exact (listRule_walks ..).keeps _
  | subject =>
    exact (matchRule_walks _ (checkArms_walks _ _ False.elim) False.elim _).keeps _
  | @arms subject arms span? c hpatterns =>
    simp only [run, checkExpr]
    show (checkArms _ arms _).2.Retains (matchRule (checkExpr subject c).1 _ _ _).2
    rw [matchRule, hpatterns]
    exact (armsRule_walks ..).keeps _
  | firstExpr =>
    exact (checkExprs_keeps _).map _ _
  | firstArm hfits =>
    exact (armRule_retains hfits).trans ((checkArms_keeps _ _).map _ _)
  | letValue =>
    exact (letRule_walks ..).keeps _
  | assigned hvar hmutable =>
    exact assignRule_retains hvar hmutable (checkExpr _) _
  | returned =>
    exact (returnRule_walks ..).keeps _
  | whileCondition =>
    refine (condition_retains _ _).trans ?_
    exact (checkStmts_keeps _).inLoop _
  | whileBody hd =>
    subst hd
    exact .refl _
  | collection =>
    refine Keeps.behind (fun t => (elementRule_walks t _ .dummy).keeps.bind fun element => ?_) _
    exact (forRule_walks _ element (checkStmts_walks _ False.elim) _).keeps.map _
  | @forBody use item collection body span? c element d hd =>
    have hrun : (checkStmts body (forState item element span? d)).2.Retains
        (forRule item element (checkStmts body) span? d).2 := .refl _
    simp only [run, checkStmt]
    show Checker.Retains _ (forRule item (elementRule _ _ _).1 _ _ (elementRule _ _ _).2).2
    rw [hd]
    exact hrun
  | @loopBody use body span? c =>
    have hwarn : Keeps (warn .loopWithoutExit (some (span?.getD .dummy))) :=
      .of_adds (Checker.adds_addWarning · _)
    have hrun : (checkStmts body { c with loopDepth := c.loopDepth + 1 }).2.Retains
        (inLoop (checkStmts body) c).2 := .refl _
    exact hrun.trans (Keeps.behind (fun _ => .ite (.pure _) (hwarn.map _)) _)
  | condition => exact (condition_retains _ _).trans (condition_retains_of_ifElse _ _ _ _ _ _)
  | @thenBody condition thenBody elseBody? span? c =>
    cases elseBody? with
    | none =>
      exact .refl _
    | some elseBody =>
      exact (checkStmts_keeps elseBody).map (fun _ => Ty.void) _
  | elseBody hd =>
    subst hd
    exact .refl _
  | thenLast => exact (checkInit_keeps _ _).trans (branch_retains _ _ _ _ _)
  | thenInit hd =>
    subst hd
    exact branch_retains _ _ _ _ _
  | elseLast hd =>
    subst hd
    exact (checkInit_keeps _ _).trans (elseBranch_retains _ _ _ _ _)
  | elseInit hd =>
    subst hd
    exact elseBranch_retains _ _ _ _ _
  | firstStmt =>
    exact checkStmts_keeps _ _
  | firstInit =>
    exact checkInit_keeps _ _
  | @firstOfBody returned s rest c =>
    simp only [run, checkBody_cons]
    refine (bodyStmt_retains rest.isEmpty s _).trans ?_
    exact Keeps.behind (fun _ => .ite (.pure _) (checkBody_keeps _ rest)) _
  | @restOfBody returned s s' rest c d type returns hd =>
    simp only [run, checkBody_cons returned s]
    show Checker.Retains _ (checkBody (returned || (checkBodyStmt false s _).1.2) (s' :: rest)
      (checkBodyStmt false s _).2).2
    rw [hd]
    exact .refl _

theorem findings (h : Step x y) (hnil : (x.1.run x.2).findings = []) :
    (y.1.run y.2).findings = [] :=
  h.retains.findings hnil

/-- What a fragment does with names is part of what the fragment around it does. -/
theorem events (h : Step x y) {e : Event} (he : e ∈ y.1.events) : e ∈ x.1.events := by
  cases h with
  | @computedArgs callee args span? c hcallee =>
    cases callee with
    | name | field => cases hcallee
    | _ => simpa [Fragment.events, Expr.events, Scoping.callee] using he
  | @condition use condition thenBody elseBody? span? c =>
    rw [Fragment.events] at he
    cases elseBody? <;> simp [Fragment.events, Stmt.events, he]
  | @thenBody condition thenBody elseBody? | @thenLast condition thenBody elseBody?
  | @thenInit condition thenBody elseBody? =>
    rw [Fragment.events] at he
    cases elseBody? <;> simp [Fragment.events, Stmt.events, Scoping.block, he]
  | fieldCallee =>
    simp only [Fragment.events, Expr.events] at he ⊢
    exact List.mem_append_left _ he
  | restOfBody =>
    rw [Fragment.events, bodyEvents] at he
    exact List.mem_append_right _ he
  | _ =>
    rw [Fragment.events] at he
    simp [Fragment.events, Expr.events, exprsEvents, armsEvents, Stmt.events, stmtsEvents,
      lastEvents, initEvents, bodyEvents, Scoping.block, bracket, he]

end Fragment.Step

/-! ### States along the way -/

open Checker

def Fragment.isLoop : Fragment → Bool
  | stmt _ (.whileLoop ..) | stmt _ (.forLoop ..) | stmt _ (.loop ..) => true
  | _ => false

section States

variable {R : Checker → Checker → Prop} (hR : Account anyKind fun _ => R)

include hR

theorem argsState?_account {count : Nat} (h : argsState? name count place c = some d) : R c d := by
  rw [argsState?] at h
  split at h
  · obtain ⟨-, ⟨⟩⟩ := Option.ite_none_right_eq_some.mp h
    exact hR.refl c
  · split at h
    · obtain ⟨-, ⟨⟩⟩ := Option.ite_none_right_eq_some.mp h
      exact hR.refl c
    · split at h
      · split at h
        · cases h
          exact report_costs hR trivial c
        · cases h
          exact hR.refl c
      · obtain ⟨-, ⟨⟩⟩ := Option.ite_none_right_eq_some.mp h
        exact hR.refl c

theorem bodyState_account (returned : Bool) (s : Stmt) (c : Checker) :
    R c (bodyState returned s c) := by
  rw [bodyState]
  split
  · exact hR.warnSite c rfl s.span?
  · exact hR.refl c

theorem condition_account (condition : Expr) (c : Checker) :
    R c (conditionRule condition (checkExpr condition) c).2 :=
  (conditionRule_walks trivial condition (checkExpr_walks condition False.elim).wide).costs hR c

theorem checkLast_account (ss : List Stmt) (c : Checker) : R c (checkLast ss c).2 :=
  (checkLast_walks ss False.elim).costs hR c

theorem branch_account (ss : List Stmt) (c : Checker) :
    R c (branchRule (checkLast ss) (checkInit ss) c).2 :=
  (branchRule_walks (checkLast_walks ss False.elim) (checkInit_walks ss False.elim)).costs hR c

/-- **What one step does to the state.**  The state of the next fragment is one that the check comes
to on the way, in which a scope may be opened for a pattern or for the variable of a loop, and a
loop if the fragment is one. -/
theorem Fragment.Step.state {S : Checker → Checker → Prop} {x y : Fragment × Checker}
    (h : Step x y) (hsame : ∀ {c d}, R c d → S c d)
    (hscope : ∀ {c d}, R c d → S c { d with env := d.env.push })
    (hbinding : ∀ {c d} name v, R c d → S c { d with env := d.env.push.defineVar name v })
    (hloop : x.1.isLoop = true → ∀ {c d}, R c d → S c { d with loopDepth := d.loopDepth + 1 })
    (hfor : x.1.isLoop = true → ∀ {c d} name v, R c d →
      S c { d with env := d.env.push.defineVar name v, loopDepth := d.loopDepth + 1 }) :
    S x.2 y.2 := by
  have htrans : ∀ {c d e}, R c d → R d e → R c e := hR.trans (s := 0) (t := 0)
  cases h with
  | right | fieldArgs | arms | restExprs => exact hsame (checkExpr_costs hR _ _)
  | namedArgs hseen => exact hsame (argsState?_account hR hseen)
  | @firstArm subject pattern body span? arms c hfits =>
    simp only [armState]
    split
    · exact hbinding _ _ (hR.refl c)
    · exact hscope (hR.refl c)
  | restArms =>
    exact hsame ((armRule_walks _ _ (checkExpr_walks _ False.elim) False.elim).wide.costs hR _)
  | whileBody hd =>
    subst hd
    exact hloop rfl (condition_account hR _ _)
  | @forBody use item collection body span? c element d hd =>
    have helement := (@elementRule_walks False True (checkExpr collection c).1 collection.place
      .dummy).wide.costs hR (checkExpr collection c).2
    rw [hd] at helement
    exact hfor rfl item _ (htrans (checkExpr_costs hR collection c) helement)
  | loopBody => exact hloop rfl (hR.refl _)
  | thenBody | thenLast => exact hsame (condition_account hR _ _)
  | elseBody hd =>
    subst hd
    exact hsame (htrans (condition_account hR _ _) (checkStmts_costs hR _ _))
  | thenInit hd =>
    subst hd
    exact hsame (htrans (condition_account hR _ _) (checkLast_account hR _ _))
  | elseLast hd =>
    subst hd
    exact hsame (htrans (condition_account hR _ _) (branch_account hR _ _))
  | elseInit hd =>
    subst hd
    refine hsame (htrans ?_ (checkLast_account hR _ _))
    exact htrans (condition_account hR _ _) (branch_account hR _ _)
  | restStmts | restInit => exact hsame (checkStmt_costs hR _ _ _)
  | firstOfBody => exact hsame (bodyState_account hR _ _ _)
  | @restOfBody returned s s' rest c d type returns hd =>
    have hstmt := checkBodyStmt_costs hR false s (bodyState returned s c)
    rw [hd] at hstmt
    exact hsame (htrans (bodyState_account hR returned s c) hstmt)
  | _ => exact hsame (hR.refl _)

end States

/-! ### Functions -/

namespace Checker

def fns (c : Checker) : List (Table Signature) := c.env.scopes.map Scope.fns

theorem fn?_of_fns (h : d.fns = c.fns) (name : String) : d.env.fn? name = c.env.fn? name := by
  have hfind : ∀ e : Checker, e.env.fn? name = e.fns.findSome? (·.get? name) := by
    intro e
    rw [fns, List.findSome?_map]
    rfl
  rw [hfind, hfind, h]

/-- A check defines no function in a scope that it does not open. -/
theorem fns_account : Account anyKind fun _ c d => d.fns = c.fns where
  refl c := rfl
  trans h h' := h'.trans h
  mono h _ := h
  report c _ _ _ := by rw [fns, (adds_addDiagnostic c _).env, fns]
  reportMatch c fault pos := rfl
  warn c _ _ _ _ := by rw [fns, (adds_addWarning c _).env, fns]
  warnSite c _ _ _ _ := by rw [fns, (adds_addWarning c _).env, fns]
  warnAlways c _ _ _ _ := rfl
  defineVar c name v := rfl
  markUsed c name := by
    rw [fns, Env.scopes_markUsed]
    exact TouchedScopes.map_eq (fun h => h.fns) (.markIn name c.env.scopes)
  scope {s c d} h := by
    obtain ⟨-, houter⟩ := List.cons.inj h
    cases hscopes : d.env.outer with
    | nil =>
      rw [hscopes] at houter
      cases houter
    | cons scope outer =>
      rw [fns, Env.pop, Env.pop?, hscopes]
      rwa [hscopes] at houter
  loop h := h

end Checker

/-- The functions that are known stay the same from step to step. -/
theorem Fragment.Step.fn? {x y : Fragment × Checker} (h : Step x y) (name : String) :
    y.2.env.fn? name = x.2.env.fn? name :=
  -- The scopes that a step opens have no functions.
  h.state fns_account (fun hfns => fn?_of_fns hfns name) (fun hfns => fn?_of_fns hfns name)
    (fun _ _ hfns => fn?_of_fns hfns name) (fun _ _ _ hfns => fn?_of_fns hfns name)
    (fun _ _ _ _ _ hfns => fn?_of_fns hfns name)

/-! ### Programs -/

/-- The state in which the body of a function is looked at. -/
def functionState (fn : FnDecl) (c : Checker) : Checker :=
  let d := (fn.params.forM defineParam { c with env := c.env.push }).2
  { d with returns? := (d.env.fn? fn.name).map (·.returns) }

theorem functionState_fn? (fn : FnDecl) (c : Checker) (name : String) :
    (functionState fn c).env.fn? name = c.env.fn? name :=
  fn?_of_fns (Costs.forM fns_account (defineParam_costs fns_account) fn.params
    { c with env := c.env.push }) name

theorem expectedReturn?_functionState (fn : FnDecl) (c : Checker) :
    expectedReturn? (functionState fn c) =
      ((c.env.fn? fn.name).map (·.returns)).filter (· != .void) := by
  rw [← functionState_fn? fn c]
  rfl

/-- The bodies of functions, each in the state in which it is looked at. -/
def functionStarts : List FnDecl → Checker → List (Fragment × Checker)
  | [], _ => []
  | fn :: fns, c =>
    (.body false fn.body, functionState fn c) :: functionStarts fns (checkFunction fn c).2

/-- The state in which all functions and imports of a program are known. -/
def Program.root (p : Program) : Checker :=
  ((p.imports.flatMap Import.bound).forM (fun name => defineVar name { type := .any })
    (p.functions.forM declare Checker.new).2).2

/-- Where the check of a program comes to its code: the bodies of its functions, and its top-level
statements. -/
def Program.starts (p : Program) : List (Fragment × Checker) :=
  functionStarts p.functions p.root ++
    [(Fragment.stmts p.statements, (p.functions.forM checkFunction p.root).2)]

def Program.blocks (p : Program) : List Fragment :=
  p.functions.map (fun fn => Fragment.body false fn.body) ++ [Fragment.stmts p.statements]

theorem functionStarts_fst (fns : List FnDecl) (c : Checker) :
    (functionStarts fns c).map Prod.fst = fns.map fun fn => .body false fn.body := by
  induction fns generalizing c with
  | nil => rfl
  | cons fn fns ih => exact congrArg (List.cons _) (ih (checkFunction fn c).2)

theorem Program.starts_fst (p : Program) : p.starts.map Prod.fst = p.blocks := by
  rw [starts, List.map_append, functionStarts_fst]
  rfl

def Program.Reaches (p : Program) (x : Fragment) (c : Checker) : Prop :=
  ∃ start ∈ p.starts, Relation.ReflTransGen Fragment.Step start (x, c)

def Program.Visits (p : Program) (e : Expr) (c : Checker) : Prop :=
  ∃ start ∈ p.starts, Relation.ReflTransGen Fragment.Step start (.expr e, c)

theorem check_eq (p : Program) :
    Checker.new.check p = (checkStmts p.statements (p.functions.forM checkFunction p.root).2).2 :=
  rfl

theorem checkFunctions_keeps (fns : List FnDecl) : Keeps (fns.forM checkFunction) :=
  checkFunctions_costs retains_account (fun _ _ => .refl _) fns

/-- What the body of a function records, the function leaves recorded. -/
theorem checkFunction_retains (fn : FnDecl) (c : Checker) :
    (checkBody false fn.body (functionState fn c)).2.Retains (checkFunction fn c).2 := by
  show Retains _ (checkInside fn (functionState fn c)).2
  rw [checkInside_eq]
  exact Keeps.behind (fun r => (endRule_walks trivial fn _ r).keeps) _

theorem checkBody_findings_of_function {fn : FnDecl} (hnil : (checkFunction fn c).2.findings = []) :
    (checkBody false fn.body (functionState fn c)).2.findings = [] :=
  (checkFunction_retains fn c).findings hnil

theorem functionStarts_retains (fns : List FnDecl) (c : Checker) :
    ∀ start ∈ functionStarts fns c,
      (start.1.run start.2).Retains (fns.forM checkFunction c).2 := by
  induction fns generalizing c with
  | nil => exact List.forall_mem_nil _
  | cons fn fns ih =>
    have hfirst := (checkFunction_retains fn c).trans (checkFunctions_keeps fns _)
    exact List.forall_mem_cons.mpr ⟨hfirst, ih (checkFunction fn c).2⟩

theorem functionStarts_fn? {fns : List FnDecl} (name : String) :
    ∀ start ∈ functionStarts fns c, start.2.env.fn? name = c.env.fn? name := by
  have hR := fns_account
  induction fns generalizing c with
  | nil => exact List.forall_mem_nil _
  | cons fn fns ih =>
    refine List.forall_mem_cons.mpr ⟨?_, fun start hstart => ?_⟩
    · exact functionState_fn? fn c name
    · exact (ih start hstart).trans
        (fn?_of_fns (checkFunction_costs hR (fun _ _ => rfl) fn c) name)

theorem Program.events_of_block {p : Program} {x : Fragment} (hx : x ∈ p.blocks) {e : Event}
    (he : e ∈ x.events) : e ∈ p.events .checked := by
  refine List.mem_append_right _ ?_
  rcases List.mem_append.mp hx with hx | hx
  · obtain ⟨fn, hfn, rfl⟩ := List.mem_map.mp hx
    refine List.mem_append_left _ (List.mem_flatMap.mpr ⟨fn, hfn, ?_⟩)
    simp only [Fragment.events] at he
    simp [FnDecl.events, bracket, he]
  · obtain rfl := List.mem_singleton.mp hx
    exact List.mem_append_right _ he

theorem starts_retains (p : Program) :
    ∀ start ∈ p.starts, (start.1.run start.2).Retains (Checker.new.check p) := by
  intro start hstart
  rcases List.mem_append.mp hstart with hstart | hstart
  · exact (functionStarts_retains _ _ start hstart).trans (checkStmts_keeps p.statements _)
  · obtain rfl := List.mem_singleton.mp hstart
    exact .refl _

namespace Program.Reaches

variable {p : Program} {x : Fragment} {c : Checker}

/-- What holds where a check starts, and goes on to hold, holds wherever the check comes. -/
theorem invariant {P : Fragment × Checker → Prop} (hstarts : ∀ start ∈ p.starts, P start)
    (hstep : ∀ {x y : Fragment × Checker}, Fragment.Step x y → P x → P y) (h : p.Reaches x c) :
    P (x, c) := by
  obtain ⟨start, hstart, hreach⟩ := h
  have hend : ∀ y, Relation.ReflTransGen Fragment.Step start y → P y := by
    intro y hy
    induction hy with
    | refl => exact hstarts start hstart
    | tail _ hlast ih => exact hstep hlast ih
  exact hend _ hreach

/-- What a fragment that the check comes to records is recorded in the end. -/
theorem retains (h : p.Reaches x c) : (x.run c).Retains (Checker.new.check p) :=
  h.invariant (P := fun y => (y.1.run y.2).Retains (Checker.new.check p)) (starts_retains p)
    fun hstep hx => hstep.retains.trans hx

end Program.Reaches

namespace Program.Visits

variable {p : Program} {e : Expr} {c : Checker}

/-- A check that finds nothing finds nothing in any expression that it comes to. -/
theorem findings (h : p.Visits e c) (hnil : (Checker.new.check p).findings = []) :
    (checkExpr e c).2.findings = [] :=
  (Reaches.retains h).findings hnil

/-- Wherever the check is, it knows the functions of the program and no others. -/
theorem fn? (h : p.Visits e c) (name : String) : c.env.fn? name = p.root.env.fn? name := by
  refine Reaches.invariant (P := fun y => y.2.env.fn? name = p.root.env.fn? name) ?_ ?_ h
  · intro start hstart
    rcases List.mem_append.mp hstart with hstart | hstart
    · exact functionStarts_fn? name start hstart
    · obtain rfl := List.mem_singleton.mp hstart
      exact fn?_of_fns (checkFunctions_costs fns_account (fun _ _ => rfl) p.functions p.root) name
  · exact fun hstep hx => (hstep.fn? name).trans hx

/-- What an expression that the check comes to does with names, the program does. -/
theorem events (h : p.Visits e c) {event : Event} (hevent : event ∈ e.events .checked) :
    event ∈ p.events .checked := by
  obtain ⟨start, hstart, hreach⟩ := h
  have hback : ∀ y, Relation.ReflTransGen Fragment.Step start y → event ∈ y.1.events →
      event ∈ start.1.events := by
    intro y hy
    induction hy with
    | refl => exact id
    | tail _ hstep ih => exact fun hevent => ih (hstep.events hevent)
  refine events_of_block ?_ (hback _ hreach hevent)
  rw [← starts_fst]
  exact List.mem_map_of_mem hstart

end Program.Visits

end Owl
