/-
Names that are never used.

Where the check comes to the end of a function, it warns of the variables in its
scope that were never used.  It does not come there in a function that returns, and
the variables of loops over collections are in scopes of their own.

* `FnDecl.lone`, `Local.warning` — the variables whose name comes up nowhere else in a
  function, and the warning of such a variable.
-/
import Owl.Proofs.Checking.Once
import Owl.Proofs.Scoping.Lexical
import Owl.Proofs.Visiting.Locals
import Owl.Proofs.Visiting.Resolution

namespace Owl

open Checker CheckM Owl.Parser

/-! ### What stands for a name -/

namespace Env

def rows (name : String) (env : Env) : List (Option Variable) :=
  env.scopes.map (·.vars.get? name)

theorem rows_markUsed {name other : String} (h : other ≠ name) (env : Env) :
    (env.markUsed other).rows name = env.rows name := by
  rw [rows, scopes_markUsed, markIn_other h, rows]

theorem rows_pop {name : String} {env env' : Env} (h : env'.rows name = env.push.rows name) :
    env'.pop.rows name = env.rows name := by
  obtain ⟨scope, outer⟩ := env'
  have houter := (List.cons.inj h).2
  cases outer with
  | nil => cases houter
  | cons => exact houter

/-- Events without a name leave what stands for it. -/
theorem tracking_rows (name : String) :
    Tracking fun es env env' => mentions name es = 0 → env'.rows name = env.rows name where
  skip _ _ _ := rfl
  trans _ h h' hes := by
    rw [mentions_append, Nat.add_eq_zero_iff] at hes
    rw [h' hes.2, h hes.1]
  declare env other v hes := by
    have hother : other ≠ name := fun heq => List.count_eq_zero.mp hes (heq ▸ List.mem_cons_self ..)
    simp [rows, scopes, defineVar, Table.get?_put, if_neg hother]
  markUsed {_ _ _ other} h hmem hes := by
    have hother : other ≠ name := fun heq => List.count_eq_zero.mp hes (heq ▸ hmem)
    rw [rows_markUsed hother, h hes]
  scope _ h hes := by
    rw [mentions_bracket] at hes
    exact rows_pop (h hes)

end Env

/-! ### Fresh variables -/

/-- The variable stands for its name in the innermost scope, and was never used. -/
def Local.Fresh (l : Local) (c : Checker) : Prop :=
  ∃ v, c.env.scope.vars.get? l.name = some v ∧ v.used = false ∧ v.isParam = l.isParam ∧
    v.span? = l.span?

namespace Local.Fresh

variable {l : Local} {c d : Checker}

theorem of_rows (h : l.Fresh c) (hrows : d.env.rows l.name = c.env.rows l.name) : l.Fresh d := by
  obtain ⟨v, hv, hfields⟩ := h
  exact ⟨v, (List.cons.inj hrows).1.trans hv, hfields⟩

theorem of_defineVar {v : Variable} (hused : v.used = false) (hparam : v.isParam = l.isParam)
    (hspan : v.span? = l.span?) : l.Fresh (defineVar l.name v c).2 := by
  refine ⟨v, ?_, hused, hparam, hspan⟩
  exact (Table.get?_put ..).trans (if_pos rfl)

end Local.Fresh

/-- A variable whose name comes up where it is declared and nowhere else is fresh behind a check
that declares it. -/
theorem CheckM.Declares.fresh {α : Type} {es : List Event} {ls : List Local} {p : CheckM α}
    (h : Declares es ls p) {l : Local} (hl : l ∈ ls) (hfor : l.inFor = false) :
    0 < mentions l.name es ∧ (mentions l.name es = 1 → ∀ c, l.Fresh (p c).2) := by
  have hdeclared (isMutable : Bool) : 0 < mentions l.name [.declare l.name isMutable] :=
    List.count_pos_iff.mpr (List.mem_cons_self ..)
  induction h with
  | quiet | returns => cases hl
  | @bind _ _ es es' _ _ p f hp hf ihp ihf =>
    rw [mentions_append]
    rcases List.mem_append.mp hl with hl | hl
    · obtain ⟨hpos, hfresh⟩ := ihp hl
      refine ⟨by omega, fun hone c => ?_⟩
      have hidle := (hf (p c).1).tracks (Env.tracking_rows l.name) (p c).2 (by omega)
      exact (hfresh (by omega) c).of_rows hidle
    · obtain ⟨hpos, -⟩ := ihf (p default).1 hl
      refine ⟨by omega, fun hone c => ?_⟩
      exact (ihf (p c).1 hl).2 (by omega) (p c).2
  | @letVar _ value type? =>
    obtain rfl := List.mem_singleton.mp hl
    refine ⟨hdeclared _, fun _ c => ?_⟩
    cases type? with
    | none => exact .of_defineVar rfl rfl rfl
    | some written =>
      show Local.Fresh _ ((ite .. : CheckM Unit) (readType written c).2).2
      split <;> exact .of_defineVar rfl rfl rfl
  | @param param =>
    obtain rfl := List.mem_singleton.mp hl
    refine ⟨hdeclared _, fun _ c => ?_⟩
    obtain ⟨name, type?, span?⟩ := param
    cases type? <;> exact .of_defineVar rfl rfl rfl
  | loop _ ih => exact ⟨(ih hl).1, fun hone c => (ih hl).2 hone { c with loopDepth := c.loopDepth + 1 }⟩
  | forEach =>
    obtain ⟨l, -, rfl⟩ := List.mem_map.mp hl
    cases hfor

variable {file : String}

theorem params_declare {params : List Param} (h : ∀ param ∈ params, param.Unplaced) :
    Declares (declareAll (params.map Param.name)) (params.map Param.local)
      (params.forM defineParam) := by
  induction params with
  | nil => exact .pure _
  | cons param params ih =>
    obtain ⟨hfirst, hmore⟩ := List.forall_mem_cons.mp h
    exact (Declares.param hfirst).bind fun _ => ih hmore

/-- The parameters and variables of a function whose name comes up nowhere else in it. -/
def FnDecl.lone (fn : FnDecl) : List Local :=
  fn.locals.filter fun l => mentions l.name (fn.events .lexical) = 1

/-- Such a variable is fresh behind the body. -/
theorem FnDecl.Read.fresh {fn : FnDecl} {us : List Token} (h : fn.Read file us) {l : Local}
    (hl : l ∈ fn.lone) (hfor : l.inFor = false) (c : Checker) :
    l.Fresh (checkBody false fn.body (functionState fn c)).2 := by
  obtain ⟨hparams, vs, hbody⟩ := h.inside
  obtain ⟨hmem, hname⟩ := List.mem_filter.mp hl
  have hdeclares := (params_declare hparams).bind fun _ =>
    (Declares.returns fun c => (c.env.fn? fn.name).map (·.returns)).bind fun _ =>
      checkBody_declares hbody false
  obtain ⟨hpos, hfresh⟩ := hdeclares.fresh hmem hfor
  have hfollows := (@Follows.declareAll (stmtsLoose fn.body) [] (fn.params.map Param.name)).append
    (body_follows (stmtsHazards_onlyCalls hbody) fun _ hloose => hloose)
  have hfewer := hfollows.fewer l.name
  rw [decide_eq_true_iff, FnDecl.events, mentions_bracket] at hname
  rw [List.nil_append] at hpos hfresh
  exact hfresh (by omega) { c with env := c.env.push }

/-! ### Warnings -/

def Local.warning (fnName : String) (l : Local) : Warning :=
  (if l.isParam then Concern.unusedParameter l.name fnName
    else Concern.unusedVariable l.name).toWarning l.span?

theorem warnRows_record {rows : Table Variable} {row : String × Variable} (hrow : row ∈ rows)
    {fnName : String} {m : Mark} (hm : ∀ c, (warnRow fnName row c).2.Recorded m) (c : Checker) :
    (rows.forM (warnRow fnName) c).2.Recorded m := by
  have hR := retains_account
  induction rows generalizing c with
  | nil => cases hrow
  | cons first rows ih =>
    rcases List.mem_cons.mp hrow with rfl | hrow
    · exact Costs.forM hR (warnRow_costs hR fnName) rows _ m (hm c)
    · exact ih hrow _

/-- A fresh variable is warned of, unless its name says that it may stay unused. -/
theorem Local.Fresh.warned {l : Local} {c : Checker} (h : l.Fresh c)
    (hsilent : isSilent l.name = false) (fnName : String) :
    (warnUnused fnName c).2.Recorded (l.warning fnName).mark := by
  obtain ⟨v, hv, hused, hparam, hspan⟩ := h
  have hmem : (l.name, v) ∈ c.env.scope.unused :=
    List.mem_filter.mpr ⟨Table.mem_of_get? hv, by simp [hused, hsilent]⟩
  rw [warnUnused_eq]
  refine warnRows_record hmem (fun d => ?_) c
  have hadds (concern : Concern) := adds_addWarning d (concern.toWarning l.span?)
  rw [warnRow, Local.warning, hparam, hspan]
  split <;> exact ((hadds _).recorded _).mpr (.inr rfl)

/-! ### Functions -/

/-- Where the check comes to the end of a function, it warns of what is fresh behind its body. -/
theorem checkInside_warns {fn : FnDecl} {l : Local} {c : Checker}
    (hreturns : anyReturns fn.body = false) (hbody : fn.body ≠ [] ∨ expectedReturn? c = none)
    (hfresh : l.Fresh (checkBody false fn.body c).2) (hsilent : isSilent l.name = false) :
    (checkInside fn c).2.Recorded (l.warning fn.name).mark := by
  have hreturned : (checkBody false fn.body c).1.2 = false := by
    rw [checkBody_returned, hreturns, Bool.or_self]
  rw [checkInside_eq]
  show (endRule fn _ (checkBody false fn.body c).1 _).2.Recorded _
  simp only [endRule.eq_def, hreturned, Bool.false_eq_true, if_false]
  cases hlast : fn.body.getLast? <;> cases hexpected : expectedReturn? c with
  | none => exact hfresh.warned hsilent fn.name
  | some expected => ?_
  · rcases hbody with hbody | hbody
    · exact absurd (List.getLast?_eq_none_iff.mp hlast) hbody
    · cases hexpected.symm.trans hbody
  · next last =>
    refine (hfresh.of_rows ?_).warned hsilent fn.name
    exact (@resultRule_walks True False expected last _).tracks (Env.tracking_rows l.name) _ rfl

/-! ### Programs -/

/-- Whether the check of a program comes to the end of a function: no statement of its body returns,
and if there is none, the function has nothing to return. -/
def Program.completes (p : Program) (fn : FnDecl) : Bool :=
  !anyReturns fn.body &&
    (!fn.body.isEmpty || (p.declared? fn.name).all (·.signature.returns == .void))

/-- The check comes to every function, in a state with the functions of the program. -/
theorem checkFunctions_reach {fns : List FnDecl} {fn : FnDecl} (hfn : fn ∈ fns) (c : Checker) :
    ∃ d, d.fns = c.fns ∧ (checkFunction fn d).2.Retains (fns.forM checkFunction c).2 := by
  induction fns generalizing c with
  | nil => cases hfn
  | cons first fns ih =>
    rcases List.mem_cons.mp hfn with rfl | hfn
    · exact ⟨c, rfl, checkFunctions_keeps fns _⟩
    · obtain ⟨d, hd, hretains⟩ := ih hfn (checkFunction first c).2
      exact ⟨d, hd.trans (checkFunction_costs fns_account (fun _ _ => rfl) first c), hretains⟩

theorem expectedReturn?_eq_none {p : Program} {fn : FnDecl} (hfn : fn ∈ p.functions)
    {c : Checker} (hc : c.fns = p.root.fns)
    (h : (p.declared? fn.name).all (·.signature.returns == .void) = true) :
    expectedReturn? (functionState fn c) = none := by
  have hdeclared : (p.declared? fn.name).isSome = true :=
    List.find?_isSome.mpr ⟨fn, List.mem_reverse.mpr hfn, beq_self_eq_true _⟩
  obtain ⟨f, hf⟩ := Option.isSome_iff_exists.mp hdeclared
  rw [hf] at h
  rw [expectedReturn?_functionState, fn?_of_fns hc, p.root_fn?, hf]
  show Option.filter _ (some f.signature.returns) = none
  rw [eq_of_beq h]
  rfl

/-- **Names that are not used are told.**  In a program that was read from a text, where the check
comes to the end of a function, each of its parameters and variables whose name comes up nowhere else
in the function has just one warning, if it is in no loop over a collection and its name does not
start with an underscore. -/
theorem check_warns_unused {file source : String} {p : Program}
    (h : readProgram file source = .ok p) {fn : FnDecl} (hfn : fn ∈ p.functions)
    (hend : p.completes fn = true) {l : Local} (hl : l ∈ fn.lone) (hfor : l.inFor = false)
    (hsilent : isSilent l.name = false) :
    ((Checker.new.check p).warnings.map Warning.mark).count (l.warning fn.name).mark = 1 := by
  obtain ⟨tokens, htokens, hp⟩ := of_readProgram_eq_ok h
  obtain ⟨us, hread⟩ := (Program.read_of_parse hp).functions fn hfn
  obtain ⟨d, hd, hretains⟩ := checkFunctions_reach hfn p.root
  have hfresh := hread.fresh hl hfor d
  obtain ⟨hreturns, hbody⟩ := Bool.and_eq_true_iff.mp hend
  have hwarned : (checkInside fn (functionState fn d)).2.Recorded (l.warning fn.name).mark := by
    refine checkInside_warns (by simpa using hreturns) ?_ hfresh hsilent
    refine (Bool.or_eq_true_iff.mp hbody).imp (fun hbody hnil => ?_)
      (expectedReturn?_eq_none hfn hd)
    simp [hnil] at hbody
  have hrecorded := checkStmts_keeps p.statements _ _ (hretains _ hwarned)
  have hmem : (l.warning fn.name).mark ∈ (Checker.new.check p).warnings.map Warning.mark := by
    refine hrecorded.resolve_left fun hfinding => ?_
    obtain ⟨f, -, hf⟩ := List.mem_map.mp hfinding
    cases hf
  have hnodup := (List.nodup_append.mp (check_marks_nodup (sites_nodup_of_parse htokens hp))).2.1
  exact List.count_eq_one_of_mem hnodup hmem

/-- A parameter, and a variable in the block of a choice in a loop. -/
theorem check_warns_unused_in_blocks :
    ∃ p, readProgram "" ("fn f(a, b) \x7b while b \x7b if b \x7b let c = 1 b \x7d else \x7b " ++
        "let d = 2 print(d) \x7d \x7d \x7d") = .ok p ∧
      p.functions.map (fun fn => fn.lone.map Local.name) = [["a", "c"]] ∧
      ∀ fn ∈ p.functions, ∀ l ∈ fn.lone,
        ((Checker.new.check p).warnings.map Warning.mark).count (l.warning fn.name).mark = 1 := by
  refine exists_program (P := fun p =>
      p.functions.map (fun fn => fn.lone.map Local.name) = [["a", "c"]] ∧
        ∀ fn ∈ p.functions, p.completes fn = true ∧
          ∀ l ∈ fn.lone, l.inFor = false ∧ isSilent l.name = false)
    toList_ofList_append (by decide +kernel) ?_
  rintro p hp ⟨hnames, hfns⟩
  refine ⟨hnames, fun fn hfn l hl => ?_⟩
  obtain ⟨hend, hlone⟩ := hfns fn hfn
  exact check_warns_unused hp hfn hend hl (hlone l hl).1 (hlone l hl).2

/-- A function that returns, one without statements that has a value to return, and a loop over a
collection: of their unused names, none is warned of. -/
theorem check_misses_unused :
    ∃ p, readProgram "" ("fn f(a) \x7b return 1 \x7d fn g(b) -> Int \x7b \x7d " ++
        "fn h(xs) \x7b for x in xs \x7b let c = x \x7d \x7d") = .ok p ∧
      p.functions.map (fun fn => fn.lone.map Local.name) = [["a"], ["b"], ["c"]] ∧
      (∀ fn ∈ p.functions, ∀ l ∈ fn.lone, isSilent l.name = false) ∧
      (Checker.new.check p).warnings = [] :=
  exists_program toList_ofList_append (by decide +kernel) fun _ _ h => h

end Owl
