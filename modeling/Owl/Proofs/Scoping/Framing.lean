/-
What is left of a scope after it was closed.

Between entering a scope and leaving it, definitions go to scopes that are gone
afterwards.  The scopes around keep all they had; of their variables only the marks
of use change, and those by marks that no inner scope catches.

* `Env.run_noted` — what is around is noted by the marks that get out;
* `Chain.run_framed` — what this says of chains.
-/
import Owl.Proofs.Checking.Order
import Owl.Proofs.Layout.Checking
import Owl.Scope.Tables

namespace Owl

/-! ### Tables taken apart -/

theorem Table.mapValues_update {α β : Type} {f : α → β} {g : α → α} (h : ∀ a, f (g a) = f a)
    (t : Table α) (key : String) : (t.update g key).mapValues f = t.mapValues f := by
  induction t with
  | nil => rfl
  | cons row t ih =>
    simp only [mapValues, update] at ih ⊢
    split
    · simp [h]
    · simp [ih]

def Scope.tables (s : Scope) : Tables := ⟨s.vars.mapValues Variable.type, s.vars, s.fns⟩

namespace Chain

theorem markUsed_tables (name : String) (xs : List Scope) :
    markUsed name (xs.map Scope.tables) = (Env.markIn name xs).map Scope.tables := by
  induction xs with
  | nil => rfl
  | cons s xs ih =>
    have htypes := Table.mapValues_update (f := Variable.type)
      (g := fun v => { v with used := true }) (fun _ => rfl) s.vars name
    rw [List.map_cons, markUsed, Env.markIn, ih]
    split
    · next h =>
      rw [if_pos (by exact h), List.map_cons]
      exact congrArg (fun types => Tables.mk types _ _ :: _) htypes.symm
    · next h => rw [if_neg (by exact h), List.map_cons]

theorem step_tables (env : Env) (op : ScopeOp) :
    step (env.scopes.map Scope.tables) op = (env.step op).scopes.map Scope.tables := by
  cases op with
  | defineVar name v =>
    simp [step, Env.step, Env.defineVar, Env.scopes, define, Scope.tables, Table.put_mapValues]
  | defineFn | enter => rfl
  | markUsed name =>
    rw [Env.step, Env.scopes_markUsed]
    exact markUsed_tables name env.scopes
  | leave =>
    obtain ⟨scope, outer⟩ := env
    cases outer <;> rfl

/-- A chain goes along with the scopes that it is taken from. -/
theorem run_tables (env : Env) (ops : List ScopeOp) :
    run (env.scopes.map Scope.tables) ops = (env.run ops).scopes.map Scope.tables := by
  induction ops generalizing env with
  | nil => rfl
  | cons op ops ih =>
    rw [run, List.foldl_cons, step_tables]
    exact ih (env.step op)

theorem type?_tables (xs : List Scope) (name : String) :
    type? (xs.map Scope.tables) name =
      (xs.findSome? fun s => s.vars.get? name).map Variable.type := by
  rw [type?, List.findSome?_map, List.map_findSome?]
  congr 1
  funext s
  exact Table.get?_mapValues Variable.type s.vars name

theorem isMutable?_tables (xs : List Scope) (name : String) :
    isMutable? (xs.map Scope.tables) name =
      (xs.findSome? fun s => s.vars.get? name).map Variable.isMutable := by
  rw [isMutable?, List.findSome?_map]
  rfl

theorem fn?_tables (xs : List Scope) (name : String) :
    fn? (xs.map Scope.tables) name = xs.findSome? fun s => s.fns.get? name := by
  rw [fn?, List.findSome?_map]
  rfl

end Chain

/-! ### Marks that get out -/

def Variable.noted (v : Variable) (now : Bool) : Variable := { v with used := v.used || now }

theorem Variable.map_noted_false (o : Option Variable) : o.map (·.noted false) = o := by
  cases o <;> simp [noted]

/-- A name has a variable in one of the first scopes. -/
def shadowed (xs : List Scope) (k : Nat) (name : String) : Bool :=
  (xs.take k).any (·.vars.has name)

theorem shadowed_cons (s : Scope) (xs : List Scope) (k : Nat) (name : String) :
    shadowed (s :: xs) (k + 1) name = (s.vars.has name || shadowed xs k name) :=
  rfl

def varAt? (xs : List Scope) (k : Nat) (name : String) : Option Variable :=
  (xs.map (·.vars.get? name))[k]?.join

/-- The scopes `ys` are the scopes `xs`, in which the names of `N` were marked. -/
structure Noted (N : String → Bool) (xs ys : List Scope) : Prop where
  like : LikeScopes ys xs
  vars : ∀ k name,
    varAt? ys k name = (varAt? xs k name).map (·.noted (N name && !shadowed xs k name))

theorem Scope.Like.has_eq {s t : Scope} (h : s.Like t) (name : String) :
    s.vars.has name = t.vars.has name := by
  have hname := congrArg Option.isSome (h.vars name)
  rwa [Option.isSome_map, Option.isSome_map] at hname

theorem LikeScopes.shadowed_eq {xs ys : List Scope} (h : LikeScopes xs ys) (k : Nat)
    (name : String) : shadowed xs k name = shadowed ys k name := by
  induction h generalizing k with
  | nil => rfl
  | cons hst _ ih =>
    cases k with
    | zero => rfl
    | succ k => rw [shadowed_cons, shadowed_cons, ih, hst.has_eq]

namespace Noted

variable {N N' : String → Bool} {xs ys zs : List Scope}

theorem refl (xs : List Scope) : Noted (fun _ => false) xs xs :=
  ⟨.refl xs, fun _ _ => (Variable.map_noted_false _).symm⟩

theorem trans (h : Noted N xs ys) (h' : Noted N' ys zs) :
    Noted (fun name => N name || N' name) xs zs := by
  refine ⟨h'.like.trans h.like, fun k name => ?_⟩
  rw [h'.vars, h.vars, h.like.shadowed_eq, Option.map_map]
  congr 1
  funext v
  simp [Variable.noted, Bool.or_assoc, Bool.and_or_distrib_right]

theorem mark (marked : String) (xs : List Scope) :
    Noted (· == marked) xs (Env.markIn marked xs) := by
  refine ⟨.markIn marked xs, fun k name => ?_⟩
  by_cases hname : name = marked
  · subst hname
    rw [beq_self_eq_true, Bool.true_and]
    induction xs generalizing k with
    | nil => rfl
    | cons s xs ih =>
      -- The first scope catches the mark, or has no variable of the name.
      by_cases hhas : s.vars.has name
      · rw [Env.markIn, if_pos hhas]
        cases k with
        | zero => simp [varAt?, Table.get?_update, shadowed, Variable.noted]
        | succ k =>
          rw [shadowed_cons, hhas]
          exact (Variable.map_noted_false _).symm
      · rw [Env.markIn, if_neg hhas]
        cases k with
        | zero => simp_all [varAt?, Table.has]
        | succ k =>
          rw [shadowed_cons, Bool.eq_false_of_not_eq_true hhas]
          exact ih k
  · rw [varAt?, Env.markIn_other (Ne.symm hname), beq_false_of_ne hname]
    exact (Variable.map_noted_false _).symm

end Noted

/-- How many scopes further inside an operation leads; none is left that was not entered. -/
def ScopeOp.depth? : Nat → ScopeOp → Option Nat
  | d, .enter => some (d + 1)
  | 0, .leave => none
  | d + 1, .leave => some d
  | d, .defineVar .. | d, .defineFn .. | d, .markUsed _ => some d

/-- The operations leave every scope that they enter and no other one. -/
def ScopeOp.Balanced (ops : List ScopeOp) : Prop := ops.foldlM depth? 0 = some 0

namespace Env

/-- A mark of a name gets out of all but the last `n` scopes. -/
def escapes (env : Env) (n : Nat) (name : String) : List ScopeOp → Bool
  | [] => false
  | op :: ops =>
    op == .markUsed name && !shadowed env.scopes (env.scopes.length - n) name ||
      (env.step op).escapes n name ops

theorem escapes_iff {n : Nat} {name : String} {env : Env} {ops : List ScopeOp} :
    env.escapes n name ops = true ↔ ∃ pre post : List ScopeOp, ops = pre ++ .markUsed name :: post ∧
      shadowed (env.run pre).scopes ((env.run pre).scopes.length - n) name = false := by
  induction ops generalizing env with
  | nil => simp [escapes]
  | cons op ops ih =>
    rw [escapes, Bool.or_eq_true, Bool.and_eq_true, ih, beq_iff_eq, Bool.not_eq_true']
    constructor
    · rintro (⟨rfl, h⟩ | ⟨pre, post, rfl, h⟩)
      · exact ⟨[], ops, rfl, h⟩
      · exact ⟨op :: pre, post, rfl, h⟩
    · rintro ⟨_ | ⟨op', pre⟩, post, hops, h⟩
      · obtain ⟨rfl, rfl⟩ := List.cons.inj hops
        exact .inl ⟨rfl, h⟩
      · obtain ⟨rfl, rfl⟩ := List.cons.inj hops
        exact .inr ⟨pre, post, rfl, h⟩

variable {d d' : Nat} {env : Env} {inner base : List Scope}

/-- What an operation does to the scopes around: it marks a variable there, if it is a mark that
gets out. -/
theorem step_noted {op : ScopeOp} (hop : op.depth? d = some d') (henv : env.scopes = inner ++ base)
    (hinner : inner.length = d + 1) :
    ∃ inner' base', (env.step op).scopes = inner' ++ base' ∧ inner'.length = d' + 1 ∧
      Noted (fun name => op == .markUsed name &&
        !shadowed env.scopes (env.scopes.length - base.length) name) base base' := by
  obtain ⟨s, rest, rfl⟩ := List.exists_cons_of_length_eq_add_one hinner
  obtain rfl := eq_of_scopes henv
  cases op with
  | defineVar name v =>
    cases hop
    exact ⟨_ :: rest, base, rfl, hinner, .refl base⟩
  | defineFn name v =>
    cases hop
    exact ⟨_ :: rest, base, rfl, hinner, .refl base⟩
  | enter =>
    cases hop
    exact ⟨{} :: s :: rest, base, rfl, congrArg (· + 1) hinner, .refl base⟩
  | leave =>
    cases d with
    | zero => cases hop
    | succ d =>
      cases hop
      obtain ⟨t, rest, rfl⟩ := List.exists_cons_of_length_eq_add_one (Nat.succ.inj hinner)
      exact ⟨t :: rest, base, rfl, Nat.succ.inj hinner, .refl base⟩
  | markUsed marked =>
    cases hop
    rw [step, scopes_markUsed, henv, markIn_append]
    have hlength : (s :: rest ++ base).length - base.length = (s :: rest).length := by
      rw [List.length_append, Nat.add_sub_cancel]
    have hother {name : String} (h : name ≠ marked) :
        (ScopeOp.markUsed marked == .markUsed name) = false :=
      beq_false_of_ne fun heq => h (ScopeOp.markUsed.inj heq).symm
    simp only [shadowed, hlength, List.take_left]
    split
    · next hcaught =>
      refine ⟨_, base, rfl, (LikeScopes.markIn marked _).length_eq.trans hinner, ?_⟩
      convert Noted.refl base using 2 with name
      by_cases hname : name = marked
      · rw [hname, hcaught, Bool.not_true, Bool.and_false]
      · rw [hother hname, Bool.false_and]
    · next hcaught =>
      refine ⟨s :: rest, _, rfl, hinner, ?_⟩
      convert Noted.mark marked base using 2 with name
      by_cases hname : name = marked
      · simpa [hname] using hcaught
      · rw [hother hname, Bool.false_and, beq_false_of_ne hname]

theorem run_noted {ops : List ScopeOp} (hops : ops.foldlM ScopeOp.depth? d = some d')
    (henv : env.scopes = inner ++ base) (hinner : inner.length = d + 1) :
    ∃ inner' base', (env.run ops).scopes = inner' ++ base' ∧ inner'.length = d' + 1 ∧
      Noted (env.escapes base.length · ops) base base' := by
  induction ops generalizing d env inner base with
  | nil =>
    cases hops
    exact ⟨inner, base, henv, hinner, .refl base⟩
  | cons op ops ih =>
    obtain ⟨e, hop, hops⟩ := Option.bind_eq_some_iff.mp hops
    obtain ⟨inner', base', henv', hinner', hfirst⟩ := step_noted hop henv hinner
    obtain ⟨inner'', base'', henv'', hinner'', hrest⟩ := ih hops henv' hinner'
    rw [hfirst.like.length_eq] at hrest
    exact ⟨inner'', base'', henv'', hinner'', hfirst.trans hrest⟩

theorem block_noted {block : List ScopeOp} (h : ScopeOp.Balanced block) (env : Env) :
    Noted (env.push.escapes env.scopes.length · block) env.scopes
      (env.run (.enter :: (block ++ [ScopeOp.leave]))).scopes := by
  have hpush : env.push.scopes = [⟨[], []⟩] ++ env.scopes := rfl
  obtain ⟨inner, base, hrun, hinner, hnoted⟩ := run_noted h hpush rfl
  obtain ⟨s, rfl⟩ := List.length_eq_one_iff.mp hinner
  have hleave : (env.run (.enter :: (block ++ [ScopeOp.leave]))) = (env.push.run block).pop := by
    rw [run, List.foldl_cons, List.foldl_append]
    rfl
  rw [hleave, eq_of_scopes hrun]
  cases base with
  | nil => cases hnoted.like
  | cons => exact hnoted

end Env

/-! ### Chains -/

namespace Chain

/-- In a block inside of the scopes, a name is marked while none of the scopes that the block has
entered defines it. -/
def MarkedFrom (ts : Chain) (block : List ScopeOp) (name : String) : Prop :=
  ∃ pre post, block = pre ++ .markUsed name :: post ∧
    ∀ t ∈ (ts.run (.enter :: pre)).take ((ts.run (.enter :: pre)).length - ts.length),
      t.infos.has name = false

/-- The scopes around a block, after it. -/
structure Framed (ts : Chain) (block : List ScopeOp) (ts' : Chain) : Prop where
  length : ts'.length = ts.length
  type? : ∀ k name, type? (ts'.drop k) name = type? (ts.drop k) name
  isMutable? : ∀ k name, isMutable? (ts'.drop k) name = isMutable? (ts.drop k) name
  fn? : ∀ k name, fn? (ts'.drop k) name = fn? (ts.drop k) name
  used : ∀ k name info, ts[k]?.bind (·.infos.get? name) = some info →
    ∃ info', ts'[k]?.bind (·.infos.get? name) = some info' ∧
      (info'.used = true ↔ info.used = true ∨
        ts.MarkedFrom block name ∧ ∀ t ∈ ts.take k, t.infos.has name = false)

theorem info?_tables (xs : List Scope) (k : Nat) (name : String) :
    (xs.map Scope.tables)[k]?.bind (·.infos.get? name) = varAt? xs k name := by
  rw [varAt?, List.getElem?_map, List.getElem?_map]
  cases xs[k]? <;> rfl

theorem shadowed_tables (xs : List Scope) (k : Nat) (name : String) :
    (∀ t ∈ (xs.map Scope.tables).take k, t.infos.has name = false) ↔
      shadowed xs k name = false := by
  rw [← List.map_take, List.forall_mem_map, shadowed, List.any_eq_false]
  simp only [Bool.not_eq_true]
  rfl

theorem markedFrom_tables (env : Env) (block : List ScopeOp) (name : String) :
    MarkedFrom (env.scopes.map Scope.tables) block name ↔
      env.push.escapes env.scopes.length name block = true := by
  rw [Env.escapes_iff, MarkedFrom]
  refine exists₂_congr fun pre post => and_congr_right fun _ => ?_
  rw [run_tables, List.length_map, List.length_map, shadowed_tables]
  rfl

theorem framed_tables {block : List ScopeOp} (h : ScopeOp.Balanced block) (env : Env) :
    Framed (env.scopes.map Scope.tables) block
      (run (env.scopes.map Scope.tables) (.enter :: (block ++ [ScopeOp.leave]))) := by
  rw [run_tables]
  have hnoted := Env.block_noted h env
  have hdrop (k : Nat) : LikeScopes (List.drop k _) (List.drop k _) :=
    List.forall₂_drop k hnoted.like
  refine ⟨?_, fun k name => ?_, fun k name => ?_, fun k name => ?_, fun k name info hinfo => ?_⟩
  · rw [List.length_map, List.length_map, hnoted.like.length_eq]
  · have hvar := congrArg (Option.map Variable.type) ((hdrop k).var? name)
    rw [← List.map_drop, ← List.map_drop, type?_tables, type?_tables]
    rwa [Option.map_map, Option.map_map] at hvar
  · have hvar := congrArg (Option.map Variable.isMutable) ((hdrop k).var? name)
    rw [← List.map_drop, ← List.map_drop, isMutable?_tables, isMutable?_tables]
    rwa [Option.map_map, Option.map_map] at hvar
  · rw [← List.map_drop, ← List.map_drop, fn?_tables, fn?_tables, (hdrop k).fn? name]
  · rw [info?_tables] at hinfo ⊢
    rw [hnoted.vars, hinfo]
    refine ⟨_, rfl, ?_⟩
    rw [markedFrom_tables, shadowed_tables]
    simp [Variable.noted]

/-- **Scopes frame what is done in them.**  After any operations on a fresh chain, the two tables of
variables have the same names with the same types in every scope, as an `Env` has them in one table;
so from every scope a name has a type if and only if it has a mutability.  A block of operations in
a scope of its own leaves the types, mutabilities and signatures of all names as seen from every
scope around it.  A variable around it is marked as used exactly if it was before, or if the block
marks its name while none of the scopes that the block has entered defines it, nor one between. -/
theorem run_framed (ops : List ScopeOp) :
    run [{}] ops = (Env.run {} ops).scopes.map Scope.tables ∧
    (∀ t ∈ run [{}] ops, t.types = t.infos.mapValues Variable.type) ∧
    (∀ k name, type? ((run [{}] ops).drop k) name = none ↔
      isMutable? ((run [{}] ops).drop k) name = none) ∧
    ∀ block, ScopeOp.Balanced block →
      Framed (run [{}] ops) block ((run [{}] ops).run (.enter :: (block ++ [.leave]))) := by
  have hrun : run [{}] ops = (Env.run {} ops).scopes.map Scope.tables := run_tables {} ops
  rw [hrun]
  refine ⟨rfl, fun t ht => ?_, fun k name => ?_, fun block hblock => framed_tables hblock _⟩
  · obtain ⟨s, -, rfl⟩ := List.mem_map.mp ht
    rfl
  · rw [← List.map_drop, type?_tables, isMutable?_tables, Option.map_eq_none_iff,
      Option.map_eq_none_iff]

/-- A mark of `x` gets out of a block, and one of `y` stays in it, where `y` is another variable. -/
theorem run_framed_mixed :
    ScopeOp.Balanced [.markUsed "x", .defineVar "y" { type := .int }, .enter, .markUsed "y",
      .leave] ∧
    Framed (run [{}] [.defineVar "x" { type := .int }, .defineVar "y" { type := .bool }])
      [.markUsed "x", .defineVar "y" { type := .int }, .enter, .markUsed "y", .leave]
      [⟨[("x", .int), ("y", .bool)],
        [("x", { type := .int, used := true }), ("y", { type := .bool })], []⟩] :=
  ⟨rfl, (run_framed [.defineVar "x" { type := .int }, .defineVar "y" { type := .bool }]).2.2.2
    [.markUsed "x", .defineVar "y" { type := .int }, .enter, .markUsed "y", .leave] rfl⟩

end Chain

end Owl
