/-
How many arguments a function takes.

A function is known by as many parameters as it declares, and each of them takes any
value.  But a single parameter that takes any value also stands for any number of
arguments, as it does for `print`; so the arguments of a function with one parameter
are not counted.
-/
import Owl.Proofs.Visiting.Lookups
import Owl.Proofs.Visiting.Resolution

namespace Owl

open Checker CheckM

variable {p : Program} {fn : FnDecl}

/-- A function that a program declares once is the one that its name stands for. -/
theorem Program.declared?_of_count (hfn : fn ∈ p.functions)
    (honce : (p.functions.map FnDecl.name).count fn.name = 1) :
    p.declared? fn.name = some fn := by
  rw [List.count_eq_countP, List.countP_map, List.countP_eq_length_filter] at honce
  obtain ⟨found, hfound⟩ := List.length_eq_one_iff.mp honce
  have hmem : fn ∈ p.functions.filter ((· == fn.name) ∘ FnDecl.name) :=
    List.mem_filter.mpr ⟨hfn, beq_self_eq_true fn.name⟩
  rw [hfound, List.mem_singleton] at hmem
  subst hmem
  rw [declared?, ← List.head?_filter, List.filter_reverse]
  exact congrArg (fun fns => fns.reverse.head?) hfound

theorem FnDecl.signature_params (fn : FnDecl) :
    fn.signature.params = fn.params.map fun _ => .any := by
  rw [signature, signatureOf]
  cases fn.returns? with
  | none => rfl
  | some written => rfl

theorem FnDecl.length_signature_params (fn : FnDecl) :
    fn.signature.params.length = fn.params.length := by
  rw [fn.signature_params, List.length_map]

/-- The signature of a function with one parameter, and no other, is like that of `print`. -/
theorem FnDecl.signature_params_eq_any (fn : FnDecl) :
    fn.signature.params = [.any] ↔ fn.params.length = 1 := by
  constructor
  · intro h
    rw [← fn.length_signature_params, h]
    rfl
  · intro h
    obtain ⟨param, hparam⟩ := List.length_eq_one_iff.mp h
    rw [fn.signature_params, hparam]
    rfl

/-- A call of a function is seen to be wrong if the numbers differ and the function has not one
parameter. -/
theorem Program.Visits.miscounts_declared {e : Expr} {c : Checker} (h : p.Visits e c)
    (hfn : fn ∈ p.functions) (honce : (p.functions.map FnDecl.name).count fn.name = 1)
    (hbuiltin : Builtin.find? fn.name = none) (hconstructor : ValueConstructor.find? fn.name = none)
    (count : Nat) :
    c.miscounts fn.name count = true ↔ fn.params.length ≠ 1 ∧ count ≠ fn.params.length := by
  have hsignature : c.env.fn? fn.name = some fn.signature := by
    rw [h.fn?, p.root_fn?, declared?_of_count hfn honce]
    rfl
  have hgeneric : fn.name ≠ "get" ∧ fn.name ≠ "push" := by
    constructor
    all_goals
      intro hname
      rw [hname] at hbuiltin
      exact absurd hbuiltin (by decide +kernel)
  rw [miscounts, hconstructor, hsignature]
  simp [hgeneric, fn.signature_params_eq_any, fn.length_signature_params]

theorem Fragment.fault?_eq_miscounted {x : Fragment} {c : Checker} {pos : Position}
    (h : x.fault? c = some ("E0308", pos)) :
    ∃ name nameSpan? args span?, x = .expr (.call (.name name nameSpan?) args span?) ∧
      c.miscounts name args.length = true ∧ (span?.getD .dummy).start = pos := by
  rw [fault?.eq_def] at h
  split at h <;> simp_all

/-- **The arguments of functions are counted, unless they have one parameter.**  A call of a
function that a program declares once, by a name that is neither a built-in function's nor a
constructor's, is reported exactly if the number of its arguments is not that of the parameters and
the function has not one parameter.  A function of one parameter takes any number of arguments. -/
theorem check_counts {file source : String} (h : readProgram file source = .ok p)
    (hfn : fn ∈ p.functions) (honce : (p.functions.map FnDecl.name).count fn.name = 1)
    (hbuiltin : Builtin.find? fn.name = none) (hconstructor : ValueConstructor.find? fn.name = none)
    {nameSpan? : Option Span} {args : List Expr} {span? : Option Span} {c : Checker}
    (hcall : p.Visits (.call (.name fn.name nameSpan?) args span?) c) :
    (Checker.new.check p).Finds "E0308" (span?.getD .dummy).start ↔
      fn.params.length ≠ 1 ∧ args.length ≠ fn.params.length := by
  obtain ⟨tokens, -, hparse⟩ := of_readProgram_eq_ok h
  rw [check_finds_iff (Program.read_of_parse hparse) (by simp)]
  constructor
  · rintro ⟨x, d, hreach, hfault⟩
    obtain ⟨name, nameSpan?', args', span?', rfl, hcount, hpos⟩ :=
      Fragment.fault?_eq_miscounted hfault
    obtain ⟨Γ, -, hΓ⟩ := hreach.lookups
    obtain ⟨Δ, -, hΔ⟩ := Program.Reaches.lookups hcall
    -- There is only one call that starts at the place.
    have hsame := List.inj_on_of_nodup_map (lookups_nodup h)
      (hΓ (a := ⟨name, some args'.length, span?', Γ⟩) (by simp [Fragment.lookups, Expr.lookups]))
      (hΔ (a := ⟨fn.name, some args.length, span?, Δ⟩) (by simp [Fragment.lookups, Expr.lookups]))
      hpos
    obtain ⟨rfl, hlength, -⟩ := Lookup.mk.inj hsame
    rw [Option.some.inj hlength] at hcount
    exact (Program.Visits.miscounts_declared hreach hfn honce hbuiltin hconstructor _).mp hcount
  · intro hcount
    have hmiscounts : c.miscounts fn.name args.length = true :=
      (hcall.miscounts_declared hfn honce hbuiltin hconstructor _).mpr hcount
    refine ⟨_, c, hcall, ?_⟩
    simp [Fragment.fault?, hmiscounts]

def Stmt.expr? : Stmt → Option Expr
  | .expr e _ => some e
  | _ => none

/-- The check comes to an expression that is a statement outside of loops, whatever it finds. -/
theorem Program.visits_of_unlooped {s : Stmt} (hs : s ∈ p.unlooped) {e : Expr}
    (he : s.expr? = some e) : ∃ c, p.Visits e c := by
  obtain ⟨use, c, ⟨start, hstart, hreach⟩, -⟩ := reaches_of_unlooped hs
  cases s with
  | expr e' span? =>
    cases he
    exact ⟨c, start, hstart, hreach.tail .exprStmt⟩
  | _ => cases he

/-- A call of a function with two parameters in which an argument is missing. -/
theorem check_counts_missing :
    ∃ p fn nameSpan? args span? c,
      readProgram "" "fn f(a, b) \x7b print(a + b) \x7d\nf(1)" = .ok p ∧
      fn ∈ p.functions ∧ (p.functions.map FnDecl.name).count fn.name = 1 ∧
      p.Visits (.call (.name fn.name nameSpan?) args span?) c ∧
      (span?.getD .dummy).start = ⟨2, 1⟩ ∧ (Checker.new.check p).Finds "E0308" ⟨2, 1⟩ ∧
      fn.params.length ≠ 1 ∧ args.length ≠ fn.params.length := by
  obtain ⟨p, hp, hfinds, fn, hfn, honce, hbuiltin, hconstructor, s, hs, e, he, hname, hstart⟩ :
      ∃ p, readProgram "" "fn f(a, b) \x7b print(a + b) \x7d\nf(1)" = .ok p ∧
        (Checker.new.check p).Finds "E0308" ⟨2, 1⟩ ∧
        ∃ fn ∈ p.functions, (p.functions.map FnDecl.name).count fn.name = 1 ∧
          (Builtin.find? fn.name).isNone ∧ (ValueConstructor.find? fn.name).isNone ∧
          ∃ s ∈ p.unlooped, ∃ e ∈ s.expr?, e.calledName? = some fn.name ∧
            e.place.start = ⟨2, 1⟩ :=
    exists_program String.toList_ofList (by decide +kernel) fun _ _ h => h
  obtain ⟨nameSpan?, args, span?, rfl⟩ := Expr.of_calledName? hname
  obtain ⟨c, hcall⟩ := Program.visits_of_unlooped hs he
  have hcounts := check_counts hp hfn honce (Option.isNone_iff_eq_none.mp hbuiltin)
    (Option.isNone_iff_eq_none.mp hconstructor) hcall
  refine ⟨p, fn, nameSpan?, args, span?, c, hp, hfn, honce, hcall, hstart, hfinds, ?_⟩
  exact hcounts.mp (hstart ▸ hfinds)

/-- A call of a function with one parameter and two arguments, in which nothing is found. -/
theorem check_overcounts :
    ∃ p c e, readProgram "" "fn f(a) \x7b print(a) \x7d\nf(1, 2)" = .ok p ∧
      p.functions.map (fun fn => (fn.name, fn.params.length)) = [("f", 1)] ∧
      p.Visits e c ∧ e.calledName? = some "f" ∧
      (p.lookups.filter (·.name == "f")).map (fun l => (l.count?, l.pos)) = [(some 2, ⟨2, 1⟩)] ∧
      (Checker.new.check p).findings = [] := by
  obtain ⟨p, hp, hfns, ⟨s, hs, e, he, hname⟩, hlookups, haccepted⟩ :
      ∃ p, readProgram "" "fn f(a) \x7b print(a) \x7d\nf(1, 2)" = .ok p ∧
        p.functions.map (fun fn => (fn.name, fn.params.length)) = [("f", 1)] ∧
        (∃ s ∈ p.unlooped, ∃ e ∈ s.expr?, e.calledName? = some "f") ∧
        (p.lookups.filter (·.name == "f")).map (fun l => (l.count?, l.pos)) =
          [(some 2, ⟨2, 1⟩)] ∧
        (Checker.new.check p).findings = [] :=
    exists_program String.toList_ofList (by decide +kernel) fun _ _ h => h
  obtain ⟨c, hcall⟩ := Program.visits_of_unlooped hs he
  exact ⟨p, c, e, hp, hfns, hcall, hname, hlookups, haccepted⟩

end Owl
