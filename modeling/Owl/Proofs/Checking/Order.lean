/-
The order of functions does not matter.

Checking a function leaves the outermost scope as it was, but for marks of use,
which no check looks at.  So what is recorded about a function is the same
whichever functions were checked before it.

* `Env.like_congruence`, `Env.inside_congruence` — two relations between
  environments that checks keep: between functions, and inside of one.
-/
import Mathlib.Data.List.Forall2
import Owl.Compile
import Owl.Proofs.Checking.Congruence

namespace Owl

/-! ### Tables and scopes -/

namespace Table

variable {α : Type}

/-- Enters all rows, from left to right. -/
def putAll (t : Table α) (rows : List (String × α)) : Table α :=
  rows.foldl (fun t row => t.put row.1 row.2) t

theorem get?_putAll_of_not_mem {rows : List (String × α)} {key : String}
    (h : key ∉ rows.map Prod.fst) (t : Table α) : (t.putAll rows).get? key = t.get? key := by
  induction rows generalizing t with
  | nil => rfl
  | cons row rows ih =>
    simp only [List.map_cons, List.mem_cons, not_or] at h
    have hrest : ((t.put row.1 row.2).putAll rows).get? key = (t.put row.1 row.2).get? key :=
      ih h.2 _
    rw [get?_put, if_neg (Ne.symm h.1)] at hrest
    exact hrest

theorem get?_putAll_of_mem {rows : List (String × α)} (hnodup : (rows.map Prod.fst).Nodup)
    {key : String} {a : α} (h : (key, a) ∈ rows) (t : Table α) :
    (t.putAll rows).get? key = some a := by
  induction rows generalizing t with
  | nil => cases h
  | cons row rows ih =>
    obtain ⟨hfresh, hrest⟩ := List.nodup_cons.mp hnodup
    rcases List.mem_cons.mp h with rfl | h
    · have hput : ((t.put key a).putAll rows).get? key = (t.put key a).get? key :=
        get?_putAll_of_not_mem hfresh _
      rw [get?_put, if_pos rfl] at hput
      exact hput
    · exact ih hrest h _

/-- The order in which rows with different keys are entered does not show. -/
theorem get?_putAll_perm {rows rows' : List (String × α)} (hperm : rows'.Perm rows)
    (hnodup : (rows.map Prod.fst).Nodup) (t : Table α) (key : String) :
    (t.putAll rows').get? key = (t.putAll rows).get? key := by
  have hkeys := hperm.map Prod.fst
  by_cases h : key ∈ rows.map Prod.fst
  · obtain ⟨⟨_, a⟩, hrow, rfl⟩ := List.mem_map.mp h
    rw [get?_putAll_of_mem hnodup hrow,
      get?_putAll_of_mem (hkeys.nodup_iff.mpr hnodup) (hperm.mem_iff.mpr hrow)]
  · rw [get?_putAll_of_not_mem h, get?_putAll_of_not_mem (mt hkeys.mem_iff.mp h)]

end Table

/-- Scopes in which names stand for the same variables, used or not, and the same functions. -/
structure Scope.Like (s t : Scope) : Prop where
  vars : ∀ name, (s.vars.get? name).map Variable.settled = (t.vars.get? name).map Variable.settled
  fns : ∀ name, s.fns.get? name = t.fns.get? name

namespace Scope.Like

theorem refl (s : Scope) : s.Like s := ⟨fun _ => rfl, fun _ => rfl⟩

theorem symm {s t : Scope} (h : s.Like t) : t.Like s :=
  ⟨fun name => (h.vars name).symm, fun name => (h.fns name).symm⟩

theorem trans {s t u : Scope} (h : s.Like t) (h' : t.Like u) : s.Like u :=
  ⟨fun name => (h.vars name).trans (h'.vars name), fun name => (h.fns name).trans (h'.fns name)⟩

theorem put {s t : Scope} (h : s.Like t) (name : String) (v : Variable) :
    Scope.Like { s with vars := s.vars.put name v } { t with vars := t.vars.put name v } := by
  refine ⟨fun other => ?_, h.fns⟩
  simp only [Table.get?_put]
  split
  · rfl
  · exact h.vars other

theorem putFn {s t : Scope} (h : s.Like t) (name : String) (signature : Signature) :
    Scope.Like { s with fns := s.fns.put name signature }
      { t with fns := t.fns.put name signature } := by
  refine ⟨h.vars, fun other => ?_⟩
  simp only [Table.get?_put, h.fns]

theorem marked (s : Scope) (name : String) :
    Scope.Like { s with vars := s.vars.update (fun v => { v with used := true }) name } s := by
  refine ⟨fun other => ?_, fun _ => rfl⟩
  simp only [Table.get?_update]
  split
  · rw [Option.map_map]
    rfl
  · rfl

end Scope.Like

abbrev LikeScopes : List Scope → List Scope → Prop := List.Forall₂ Scope.Like

namespace LikeScopes

theorem refl (xs : List Scope) : LikeScopes xs xs :=
  List.forall₂_same.mpr fun s _ => .refl s

theorem symm {xs ys : List Scope} (h : LikeScopes xs ys) : LikeScopes ys xs :=
  List.Forall₂.flip (h.imp fun _ _ hlike => hlike.symm)

theorem trans {xs ys zs : List Scope} (h : LikeScopes xs ys) (h' : LikeScopes ys zs) :
    LikeScopes xs zs := by
  induction h generalizing zs with
  | nil => exact h'
  | cons h _ ih =>
    cases h' with
    | cons h' hrest => exact .cons (h.trans h') (ih hrest)

theorem var? {xs ys : List Scope} (h : LikeScopes xs ys) (name : String) :
    (xs.findSome? fun s => s.vars.get? name).map Variable.settled =
      (ys.findSome? fun s => s.vars.get? name).map Variable.settled := by
  induction h with
  | nil => rfl
  | @cons s t xs ys h _ ih =>
    have hvar := h.vars name
    simp only [List.findSome?_cons]
    cases hs : s.vars.get? name <;> cases ht : t.vars.get? name <;>
      simp only [hs, ht, Option.map_some, Option.map_none, reduceCtorEq] at hvar
    · exact ih
    · exact hvar

theorem fn? {xs ys : List Scope} (h : LikeScopes xs ys) (name : String) :
    xs.findSome? (fun s => s.fns.get? name) = ys.findSome? fun s => s.fns.get? name := by
  induction h with
  | nil => rfl
  | cons h _ ih => simp only [List.findSome?_cons, h.fns name, ih]

theorem markIn (name : String) (xs : List Scope) : LikeScopes (Env.markIn name xs) xs := by
  induction xs with
  | nil => exact .nil
  | cons s xs ih =>
    rw [Env.markIn]
    split
    · exact .cons (.marked s name) (refl xs)
    · exact .cons (.refl s) ih

end LikeScopes

/-- A mark of use leaves the variables of other names. -/
theorem Env.markIn_other {name other : String} (h : other ≠ name) (xs : List Scope) :
    (markIn other xs).map (·.vars.get? name) = xs.map (·.vars.get? name) := by
  induction xs with
  | nil => rfl
  | cons s xs ih =>
    rw [markIn]
    split
    · simp [Table.get?_update, if_neg h]
    · rw [List.map_cons, List.map_cons, ih]

theorem Env.scopes_markUsed (env : Env) (name : String) :
    (env.markUsed name).scopes = markIn name env.scopes := by
  rw [markUsed]
  cases h : markIn name env.scopes with
  | cons scope outer => rfl
  | nil =>
    rw [scopes, markIn] at h
    split at h <;> cases h

/-! ### Relations that checks keep -/

/-- Relations between environments in which names stand for the same things, `n` scopes further
inside than at the start. -/
structure Env.Congruence (E : Nat → Env → Env → Prop) : Prop where
  like {n : Nat} {env env' : Env} (h : E n env env') : LikeScopes env.scopes env'.scopes
  defineVar {n : Nat} {env env' : Env} (h : E n env env') (name : String) (v : Variable) :
    E n (env.defineVar name v) (env'.defineVar name v)
  markUsed {n : Nat} {env env' : Env} (h : E n env env') (name : String) :
    E n (env.markUsed name) (env'.markUsed name)
  push {n : Nat} {env env' : Env} (h : E n env env') : E (n + 1) env.push env'.push
  pop {n : Nat} {env env' : Env} (h : E (n + 1) env env') : E n env.pop env'.pop

/-- States with related environments, at the same place in a function and in loops.  The first
one has recorded the marks of `before` and those of the second one. -/
structure Checker.Alongside (E : Nat → Env → Env → Prop) (before : Mark → Prop)
    (returns? : Option Ty) (n l : Nat) (c d : Checker) : Prop where
  env : E n c.env d.env
  returns : c.returns? = returns? ∧ d.returns? = returns?
  loops : c.loopDepth = l ∧ d.loopDepth = l
  recorded : ∀ m, c.Recorded m ↔ before m ∨ d.Recorded m

theorem Checker.alongside_recording (E : Nat → Env → Env → Prop) (before : Mark → Prop)
    (returns? : Option Ty) : Recording (Alongside E before returns?) := by
  refine .of_adds fun h hc hd => ⟨?_, ?_, ?_, fun k => ?_⟩
  · rw [hc.env, hd.env]
    exact h.env
  · rw [hc.returns?, hd.returns?]
    exact h.returns
  · rw [hc.loopDepth, hd.loopDepth]
    exact h.loops
  · rw [hc.recorded, hd.recorded, h.recorded, or_assoc]

theorem Checker.alongside_congruence {E : Nat → Env → Env → Prop} (hE : Env.Congruence E)
    (before : Mark → Prop) (returns? : Option Ty) :
    Congruence (Alongside E before returns?) where
  var? h name := (hE.like h.env).var? name
  fn? h name := (hE.like h.env).fn? name
  returns? h := h.returns.1.trans h.returns.2.symm
  loopDepth h := h.loops.1.trans h.loops.2.symm
  recording := alongside_recording E before returns?
  defineVar h name v := ⟨hE.defineVar h.env name v, h.returns, h.loops, h.recorded⟩
  markUsed h name := ⟨hE.markUsed h.env name, h.returns, h.loops, h.recorded⟩
  push h := ⟨hE.push h.env, h.returns, h.loops, h.recorded⟩
  pop h := ⟨hE.pop h.env, h.returns, h.loops, h.recorded⟩
  enter h := ⟨h.env, h.returns, by simp [h.loops.1, h.loops.2], h.recorded⟩
  leave h := ⟨h.env, h.returns, by simp [h.loops.1, h.loops.2], h.recorded⟩

namespace Env

/-- Environments in which names stand for the same things. -/
structure Like (n : Nat) (env env' : Env) : Prop where
  scopes : LikeScopes env.scopes env'.scopes
  depth : env.outer.length = n

theorem like_congruence : Congruence Like where
  like h := h.scopes
  defineVar h name v := by
    obtain ⟨hscopes, hdepth⟩ := h
    cases hscopes with
    | cons hscope houter => exact ⟨.cons (hscope.put name v) houter, hdepth⟩
  markUsed {n env env'} h name := by
    have hscopes : LikeScopes (env.markUsed name).scopes (env'.markUsed name).scopes := by
      rw [scopes_markUsed, scopes_markUsed]
      exact (LikeScopes.markIn name _).trans (h.scopes.trans (LikeScopes.markIn name _).symm)
    have hlength := (LikeScopes.markIn name env.scopes).length_eq
    rw [← scopes_markUsed, scopes, scopes, List.length_cons, List.length_cons] at hlength
    exact ⟨hscopes, (Nat.succ.inj hlength).trans h.depth⟩
  push h := ⟨.cons (.refl _) h.scopes, by simp [Env.push, Env.scopes, h.depth]⟩
  pop {n env env'} h := by
    obtain ⟨scope, outer⟩ := env
    obtain ⟨scope', outer'⟩ := env'
    obtain ⟨hscopes, hdepth⟩ := h
    cases hscopes with
    | cons hscope houter =>
      cases houter with
      | nil => cases hdepth
      | cons hnext hrest => exact ⟨.cons hnext hrest, Nat.succ.inj hdepth⟩

/-- Environments inside of a function: the inner scopes are the same, and names of the outermost one
stand for the same things as in `root`. -/
def Inside (root : Scope) (n : Nat) (env env' : Env) : Prop :=
  ∃ (s : Scope) (inner : List Scope) (r r' : Scope), env = ⟨s, inner ++ [r]⟩ ∧
    env' = ⟨s, inner ++ [r']⟩ ∧ inner.length = n ∧ r.Like root ∧ r'.Like root

theorem markIn_append (name : String) (xs ys : List Scope) :
    markIn name (xs ++ ys) =
      if xs.any (·.vars.has name) then markIn name xs ++ ys else xs ++ markIn name ys := by
  induction xs with
  | nil => rfl
  | cons s xs ih =>
    rw [List.cons_append, markIn, markIn, List.any_cons]
    cases s.vars.has name with
    | true => rfl
    | false =>
      simp only [Bool.false_eq_true, if_false, Bool.false_or, ih]
      split
      · rfl
      · rfl

theorem eq_of_scopes {env : Env} {s : Scope} {outer : List Scope} (h : env.scopes = s :: outer) :
    env = ⟨s, outer⟩ := by
  obtain ⟨rfl, rfl⟩ := List.cons.inj h
  rfl

/-- A mark of use is set in an inner scope, or else in the outermost one. -/
theorem markUsed_inside (name : String) (s : Scope) (inner : List Scope) :
    (∃ (s' : Scope) (inner' : List Scope), inner'.length = inner.length ∧
      ∀ r : Scope, markUsed ⟨s, inner ++ [r]⟩ name = ⟨s', inner' ++ [r]⟩) ∨
    ∀ r : Scope, ∃ r' : Scope, r'.Like r ∧ markUsed ⟨s, inner ++ [r]⟩ name = ⟨s, inner ++ [r']⟩ := by
  have hscopes (r : Scope) :
      (markUsed ⟨s, inner ++ [r]⟩ name).scopes = markIn name (s :: inner ++ [r]) :=
    scopes_markUsed _ name
  cases hany : (s :: inner).any (·.vars.has name) with
  | true =>
    have hlike := LikeScopes.markIn name (s :: inner)
    obtain ⟨s', inner', -, hrest, hmark⟩ := List.forall₂_cons_right_iff.mp hlike
    refine .inl ⟨s', inner', hrest.length_eq, fun r => eq_of_scopes ?_⟩
    rw [hscopes, markIn_append, hany, if_pos rfl, hmark, List.cons_append]
  | false =>
    refine .inr fun r => ?_
    have hlike := LikeScopes.markIn name [r]
    obtain ⟨r', rest, hr', hrest, hmark⟩ := List.forall₂_cons_right_iff.mp hlike
    rw [List.forall₂_nil_right_iff.mp hrest] at hmark
    refine ⟨r', hr', eq_of_scopes ?_⟩
    rw [hscopes, markIn_append, hany, if_neg Bool.false_ne_true, hmark, List.cons_append]

theorem inside_congruence (root : Scope) : Congruence (Inside root) where
  like h := by
    obtain ⟨s, inner, r, r', rfl, rfl, -, hr, hr'⟩ := h
    exact List.rel_append (LikeScopes.refl (s :: inner)) (.cons (hr.trans hr'.symm) .nil)
  defineVar h name v := by
    obtain ⟨s, inner, r, r', rfl, rfl, hlength, hr, hr'⟩ := h
    exact ⟨_, inner, r, r', rfl, rfl, hlength, hr, hr'⟩
  markUsed h name := by
    obtain ⟨s, inner, r, r', rfl, rfl, hlength, hr, hr'⟩ := h
    rcases markUsed_inside name s inner with ⟨s', inner', hlength', hmark⟩ | hmark
    · exact ⟨s', inner', r, r', hmark r, hmark r', hlength'.trans hlength, hr, hr'⟩
    · obtain ⟨t, ht, hmark₁⟩ := hmark r
      obtain ⟨t', ht', hmark₂⟩ := hmark r'
      exact ⟨s, inner, t, t', hmark₁, hmark₂, hlength, ht.trans hr, ht'.trans hr'⟩
  push h := by
    obtain ⟨s, inner, r, r', rfl, rfl, rfl, hr, hr'⟩ := h
    exact ⟨{}, s :: inner, r, r', rfl, rfl, rfl, hr, hr'⟩
  pop h := by
    obtain ⟨s, inner, r, r', rfl, rfl, hlength, hr, hr'⟩ := h
    obtain ⟨t, inner, rfl⟩ := List.exists_cons_of_length_eq_add_one hlength
    exact ⟨t, inner, r, r', rfl, rfl, Nat.succ.inj hlength, hr, hr'⟩

end Env

/-! ### Functions one after another -/

/-- One action after another, each of which adds marks that do not depend on the state. -/
theorem CheckM.forM_adds {σ α : Type} (A : σ → Checker → Prop) (next : σ → α → σ)
    (adds : α → Mark → Prop) {f : α → CheckM Unit}
    (hstep : ∀ {s c} (a : α), A s c → A (next s a) (f a c).2 ∧
      ∀ m, (f a c).2.Recorded m ↔ c.Recorded m ∨ adds a m)
    (as : List α) {s : σ} {c : Checker} (h : A s c) :
    A (as.foldl next s) (as.forM f c).2 ∧
      ∀ m, (as.forM f c).2.Recorded m ↔ c.Recorded m ∨ ∃ a ∈ as, adds a m := by
  induction as generalizing s c with
  | nil =>
    have hrun : (([] : List α).forM f c).2 = c := rfl
    exact ⟨h, fun m => by rw [hrun]; simp⟩
  | cons a as ih =>
    have hrun : ((a :: as).forM f c).2 = (as.forM f (f a c).2).2 := rfl
    obtain ⟨hfirst, hrecorded⟩ := hstep a h
    obtain ⟨hrest, hrecorded'⟩ := ih hfirst
    refine ⟨hrest, fun m => ?_⟩
    rw [hrun, hrecorded', hrecorded]
    simp [or_assoc]

namespace Checker

def alone (root : Scope) : Checker := { env := ⟨root, []⟩ }

theorem recorded_alone (c : Checker) (root : Scope) (m : Mark) :
    c.Recorded m ↔ c.Recorded m ∨ (alone root).Recorded m := by
  simp [alone, Recorded]

/-- A checker outside of functions and loops, in which names stand for the same things as in
`root`. -/
structure AtRest (root : Scope) (c : Checker) : Prop where
  scope : c.env.scope.Like root
  outer : c.env.outer = []
  returns : c.returns? = none
  loops : c.loopDepth = 0

/-- Two checkers at rest that have recorded the same marks. -/
structure Together (root : Scope) (c d : Checker) : Prop where
  left : c.AtRest root
  right : d.AtRest root
  recorded : ∀ m, c.Recorded m ↔ d.Recorded m

end Checker

open Checker CheckM

def functionInside (fn : FnDecl) : CheckM Unit := do
  fn.params.forM defineParam
  modify fun c => { c with returns? := (c.env.fn? fn.name).map (·.returns) }
  checkInside fn

theorem Env.Inside.scope_eq {root : Scope} {n : Nat} {env env' : Env} (h : Inside root n env env') :
    env.scope = env'.scope := by
  obtain ⟨s, inner, r, r', rfl, rfl, -, -, -⟩ := h
  rfl

theorem functionInside_alongside {root : Scope} {before : Mark → Prop} {c d : Checker}
    (h : Alongside (Env.Inside root) before none 0 0 c d) (fn : FnDecl) :
    ∃ returns?, Alongside (Env.Inside root) before returns? 0 0 (functionInside fn c).2
      (functionInside fn d).2 := by
  have hR := alongside_congruence (Env.inside_congruence root) before
  obtain ⟨-, hparams⟩ := Steady.forM (defineParam_steady (hR none)) fn.params h
  -- Both look their own name up, and find the same type to return.
  have hfn := (hR none).fn? hparams fn.name
  refine ⟨((fn.params.forM defineParam c).2.env.fn? fn.name).map (·.returns), ?_⟩
  refine (checkInside_steady (hR _) (fun h => h.env.scope_eq) fn ?_).2
  exact ⟨hparams.env, ⟨rfl, by rw [hfn]⟩, hparams.loops, hparams.recorded⟩

/-- To what is recorded, a function adds what it adds when it is checked alone. -/
theorem checkFunction_rest {root : Scope} {c : Checker} (h : c.AtRest root) (fn : FnDecl) :
    (checkFunction fn c).2.AtRest root ∧
      ∀ m, (checkFunction fn c).2.Recorded m ↔
        c.Recorded m ∨ (checkFunction fn (alone root)).2.Recorded m := by
  have hpush : c.env.push = ⟨{}, [] ++ [c.env.scope]⟩ := by
    rw [Env.push, Env.scopes, h.outer]
    rfl
  have hinside : Env.Inside root 0 c.env.push (alone root).env.push :=
    ⟨{}, [], c.env.scope, root, hpush, rfl, rfl, h.scope, .refl root⟩
  have hstart : Alongside (Env.Inside root) c.Recorded none 0 0 { c with env := c.env.push }
      { alone root with env := (alone root).env.push } :=
    ⟨hinside, ⟨h.returns, rfl⟩, ⟨h.loops, rfl⟩, recorded_alone c root⟩
  obtain ⟨returns?, hend⟩ := functionInside_alongside hstart fn
  obtain ⟨s, inner, r, r', henv, henv', hlength, hr, hr'⟩ := hend.env
  obtain rfl := List.length_eq_zero_iff.mp hlength
  -- Behind the function its scope is dropped, and the outermost one is left.
  have hpop : (functionInside fn { c with env := c.env.push }).2.env.pop = ⟨r, []⟩ := by
    rw [henv]
    rfl
  refine ⟨⟨?_, ?_, rfl, hend.loops.1⟩, hend.recorded⟩
  · show (functionInside fn { c with env := c.env.push }).2.env.pop.scope.Like root
    rw [hpop]
    exact hr
  · show (functionInside fn { c with env := c.env.push }).2.env.pop.outer = []
    rw [hpop]

/-- Functions may be checked in any order. -/
theorem checkFunctions_together {root : Scope} {c d : Checker} (h : Together root c d)
    {fns fns' : List FnDecl} (hperm : fns'.Perm fns) :
    Together root (fns.forM checkFunction c).2 (fns'.forM checkFunction d).2 := by
  have hrun := forM_adds (fun _ : Unit => AtRest root) (fun _ _ => ())
    (fun fn m => (checkFunction fn (alone root)).2.Recorded m) fun fn h => checkFunction_rest h fn
  obtain ⟨hleft, hrecorded⟩ := hrun fns (s := ()) h.left
  obtain ⟨hright, hrecorded'⟩ := hrun fns' (s := ()) h.right
  refine ⟨hleft, hright, fun m => ?_⟩
  simp only [hrecorded, hrecorded', h.recorded, hperm.mem_iff]

/-! ### Declarations -/

def FnDecl.signature (fn : FnDecl) : Signature := (signatureOf fn (alone {})).1

theorem signatureOf_steady {R : Nat → Nat → Checker → Checker → Prop} (hR : Recording R)
    (fn : FnDecl) : Steady R (signatureOf fn) := by
  rw [signatureOf]
  split
  · exact (readType_steady hR _).bind fun _ => .pure _
  · exact .pure _

/-- A declaration enters the signature, and adds to the marks what it adds alone. -/
theorem declare_rest {root : Scope} {c : Checker} (h : c.AtRest root) (fn : FnDecl) :
    (declare fn c).2.AtRest { root with fns := root.fns.put fn.name fn.signature } ∧
      ∀ m, (declare fn c).2.Recorded m ↔
        c.Recorded m ∨ (signatureOf fn (alone {})).2.Recorded m := by
  have hstart : Alongside (fun _ env _ => env = c.env) c.Recorded none 0 0 c (alone {}) :=
    ⟨rfl, ⟨h.returns, rfl⟩, ⟨h.loops, rfl⟩, recorded_alone c {}⟩
  obtain ⟨hvalue, henv, hreturns, hloops, hrecorded⟩ :=
    signatureOf_steady (alongside_recording _ _ _) fn hstart
  have hrun : (declare fn c).2.env = c.env.defineFn fn.name fn.signature := by
    show (signatureOf fn c).2.env.defineFn fn.name (signatureOf fn c).1 = _
    rw [henv, hvalue]
    rfl
  refine ⟨⟨?_, ?_, hreturns.1, hloops.1⟩, hrecorded⟩
  · rw [hrun]
    exact h.scope.putFn fn.name fn.signature
  · rw [hrun]
    exact h.outer

theorem foldl_putFn (fns : List FnDecl) (root : Scope) :
    fns.foldl (fun root fn => { root with fns := root.fns.put fn.name fn.signature }) root =
      { root with fns := root.fns.putAll (fns.map fun fn => (fn.name, fn.signature)) } := by
  induction fns generalizing root with
  | nil => rfl
  | cons fn fns ih =>
    rw [List.foldl_cons, ih]
    rfl

/-- Functions with different names may be declared in any order. -/
theorem declares_together {root : Scope} {c : Checker} (h : c.AtRest root)
    {fns fns' : List FnDecl} (hperm : fns'.Perm fns) (hnames : (fns.map FnDecl.name).Nodup) :
    ∃ root', Together root' (fns.forM declare c).2 (fns'.forM declare c).2 := by
  have hrun := forM_adds AtRest
    (fun root fn => { root with fns := root.fns.put fn.name fn.signature })
    (fun fn m => (signatureOf fn (alone {})).2.Recorded m) fun fn h => declare_rest h fn
  obtain ⟨hleft, hrecorded⟩ := hrun fns h
  obtain ⟨hright, hrecorded'⟩ := hrun fns' h
  refine ⟨_, hleft, ⟨?_, hright.outer, hright.returns, hright.loops⟩, fun m => ?_⟩
  · refine hright.scope.trans ?_
    rw [foldl_putFn, foldl_putFn]
    refine ⟨fun _ => rfl, Table.get?_putAll_perm (hperm.map _) ?_ _⟩
    rwa [List.map_map]
  · simp only [hrecorded, hrecorded', hperm.mem_iff]

/-! ### Whole programs -/

theorem defineVars_together {root : Scope} {c d : Checker} (h : Together root c d)
    (names : List String) (v : Variable) :
    ∃ root', Together root' ((names.forM fun name => defineVar name v) c).2
      ((names.forM fun name => defineVar name v) d).2 := by
  induction names generalizing root c d with
  | nil => exact ⟨root, h⟩
  | cons name names ih =>
    have hrest : ∀ {c : Checker}, c.AtRest root →
        (defineVar name v c).2.AtRest { root with vars := root.vars.put name v } :=
      fun h => ⟨h.scope.put name v, h.outer, h.returns, h.loops⟩
    exact ih ⟨hrest h.left, hrest h.right, h.recorded⟩

theorem checkStmts_together {root : Scope} {c d : Checker} (h : Together root c d)
    (ss : List Stmt) (m : Mark) :
    (checkStmts ss c).2.Recorded m ↔ (checkStmts ss d).2.Recorded m := by
  have hlike : Env.Like 0 c.env d.env := by
    refine ⟨?_, by rw [h.left.outer]; rfl⟩
    rw [Env.scopes, Env.scopes, h.left.outer, h.right.outer]
    exact .cons (h.left.scope.trans h.right.scope.symm) .nil
  have hstart : Alongside Env.Like (fun _ => False) none 0 0 c d :=
    ⟨hlike, ⟨h.left.returns, h.right.returns⟩, ⟨h.left.loops, h.right.loops⟩,
      fun m => by simp [h.recorded]⟩
  have hend := (checkStmts_steady (alongside_congruence Env.like_congruence _ _) ss hstart).2
  simpa using hend.recorded m

theorem check_together (p : Program) {fns : List FnDecl} (hperm : fns.Perm p.functions)
    (hnames : (p.functions.map FnDecl.name).Nodup) (m : Mark) :
    (Checker.new.check { p with functions := fns }).Recorded m ↔
      (Checker.new.check p).Recorded m := by
  have hnew : ({ Checker.new with findings := [], warnings := [] } : Checker).AtRest
      Checker.new.env.scope := ⟨.refl _, rfl, rfl, rfl⟩
  obtain ⟨root, hdeclared⟩ := declares_together hnew hperm hnames
  obtain ⟨root', himported⟩ :=
    defineVars_together hdeclared (p.imports.flatMap Import.bound) { type := .any }
  have hchecked := checkFunctions_together himported hperm
  exact (checkStmts_together hchecked p.statements m).symm

/-- Functions with different names may change places: the same codes are found at the same places,
and the same warnings are given there. -/
theorem check_functions_perm (p : Program) {fns : List FnDecl} (hperm : fns.Perm p.functions)
    (hnames : (p.functions.map FnDecl.name).Nodup) :
    (∀ code pos,
      (∃ f ∈ (Checker.new.check { p with functions := fns }).findings,
        f.code = code ∧ f.pos = pos) ↔
      ∃ f ∈ (Checker.new.check p).findings, f.code = code ∧ f.pos = pos) ∧
    ∀ code pos? message,
      (∃ w ∈ (Checker.new.check { p with functions := fns }).warnings,
        w.code = code ∧ w.span?.map Span.start = pos? ∧ w.message = message) ↔
      ∃ w ∈ (Checker.new.check p).warnings,
        w.code = code ∧ w.span?.map Span.start = pos? ∧ w.message = message := by
  have hsame := check_together p hperm hnames
  constructor
  · intro code pos
    have hmark := hsame (.finding code pos)
    simpa [Recorded, Finding.mark, Warning.mark] using hmark
  · intro code pos? message
    have hmark := hsame (.warning code pos? message)
    simpa [Recorded, Finding.mark, Warning.mark] using hmark

/-- The functions `f` and `g` of a source in which `g` calls `f`, in both orders. -/
theorem check_functions_perm_reversed :
    ∃ tokens p, tokenize "fn f(a) \x7b return b \x7d fn g() -> Int \x7b f(1, 2) \x7d" = .ok tokens ∧
      parse "" tokens = .ok p ∧ p.functions.map FnDecl.name = ["f", "g"] ∧
      ∀ code pos,
        (∃ f ∈ (Checker.new.check { p with functions := p.functions.reverse }).findings,
          f.code = code ∧ f.pos = pos) ↔
        ∃ f ∈ (Checker.new.check p).findings, f.code = code ∧ f.pos = pos := by
  refine exists_parsed (P := fun p => p.functions.map FnDecl.name = ["f", "g"])
    String.toList_ofList (by decide +kernel) fun tokens p _ _ hnames => ⟨hnames, ?_⟩
  exact (check_functions_perm p (List.reverse_perm _) (by rw [hnames]; decide)).1

end Owl
