/-
Which calls starve a template.

A call by name of `print`, `len` or `is_empty` needs an argument, and one of `get`,
`push` or `range` needs two.  A program that was read fails to be emitted exactly if a
call somewhere in it has fewer, and the fault is that of the first such call in the
order in which emission comes to them.
-/
import Owl.Proofs.Failing.Compiling
import Owl.Proofs.Visiting.Coverage

namespace Owl

open List (perm_append_comm)

/-! ### Calls with too few arguments -/

/-- Whether a call by name has fewer arguments than the template of its function asks for. -/
def starves (name : String) (count : Nat) : Bool :=
  (["print", "len", "is_empty"].contains name && count == 0) ||
    (["get", "push", "range"].contains name && decide (count < 2))

/-- An expression is a call by name with too few arguments. -/
def Expr.Starved (e : Expr) : Prop :=
  ∃ name nameSpan? args span?, e = .call (.name name nameSpan?) args span? ∧
    starves name args.length = true

theorem starves_builtin :
    ∀ b ∈ Builtin.all, b.params.length ≤ 2 ∧
      ∀ count ≤ 2, starves b.name count = decide (count < b.params.length) := by
  decide +kernel

theorem starves_of_two_le {count : Nat} (name : String) (h : 2 ≤ count) :
    starves name count = false := by
  have hzero : (count == 0) = false := by
    rw [beq_eq_false_iff_ne]
    omega
  rw [starves, hzero, decide_eq_false (by omega), Bool.and_false, Bool.and_false, Bool.or_false]

theorem starves_of_unknown {name : String} (h : Builtin.find? name = none) (count : Nat) :
    starves name count = false := by
  have hnames : ∀ n ∈ ["print", "len", "is_empty", "get", "push", "range"],
      (Builtin.find? n).isSome = true := by decide +kernel
  have hname : name ∉ ["print", "len", "is_empty", "get", "push", "range"] := by
    intro hmem
    have hsome := hnames name hmem
    rw [h] at hsome
    cases hsome
  simp only [List.mem_cons, List.not_mem_nil, or_false, not_or] at hname
  simp [starves, hname]

theorem Hazard.fault?_call (name : String) (count : Nat) :
    (Hazard.call name count).fault? =
      if starves name count = true then some (.missingArg count) else none := by
  rw [fault?]
  cases hfind : Builtin.find? name with
  | none => rw [starves_of_unknown hfind, if_neg Bool.false_ne_true]
  | some b =>
    obtain ⟨hparams, hcounts⟩ := starves_builtin b (List.mem_of_find?_eq_some hfind)
    obtain rfl : b.name = name := by simpa using List.find?_some hfind
    have hstarves : starves b.name count = decide (count < b.params.length) := by
      -- No template has more than two places, so the table of counts up to 2 says it all.
      by_cases hcount : count ≤ 2
      · exact hcounts count hcount
      · rw [starves_of_two_le _ (by omega), decide_eq_false (by omega)]
    simp [hstarves]

/-! ### Places and spots -/

/-- The place at an expression itself, leaving out what stands in it. -/
def Expr.ownHazards : Expr → List Hazard
  | .call callee args _ => callee.callHazards args.length
  | .stmt s => [.node (.unknownExpr s.kindName)]
  | .unknown => [.node (.unknownExpr "Expr")]
  | _ => []

def spotHazards (spots : List Spot) : List Hazard := spots.flatMap (·.expr.ownHazards)

@[simp] theorem spotHazards_nil : spotHazards [] = [] := rfl

@[simp] theorem spotHazards_cons (spot : Spot) (spots : List Spot) :
    spotHazards (spot :: spots) = spot.expr.ownHazards ++ spotHazards spots :=
  List.flatMap_cons

@[simp] theorem spotHazards_append (spots spots' : List Spot) :
    spotHazards (spots ++ spots') = spotHazards spots ++ spotHazards spots' :=
  List.flatMap_append

mutual

theorem Expr.hazards_perm (around : List Pattern) (dropped : Bool) :
    ∀ e : Expr, e.hazards.Perm (spotHazards (e.spots around dropped))
  | .int .. | .float .. | .string .. | .bool .. | .name .. | .stmt .. | .unknown => by
    simp [Expr.ownHazards]
  | .binary left _ right _ => by
    simp only [Expr.hazards, Expr.spots, spotHazards_cons, spotHazards_append, Expr.ownHazards,
      List.nil_append]
    exact (left.hazards_perm around dropped).append (right.hazards_perm around dropped)
  | .unary _ operand _ | .field operand _ _ | .propagate operand _ => by
    exact operand.hazards_perm around dropped
  | .call callee args span? => by
    have hcallee := callee.hazards_perm around dropped
    by_cases hname : ∃ name span?, callee = .name name span?
    · obtain ⟨name, nameSpan?, rfl⟩ := hname
      simp only [Expr.hazards, Expr.spots, spotHazards_cons, Expr.ownHazards, List.nil_append]
      -- The call comes behind its arguments, and its spot in front of theirs.
      exact perm_append_comm.trans (.append_left _ (exprsHazards_perm around dropped _ args))
    · simp only [Expr.spots_call_of_ne hname, Expr.hazards, spotHazards_cons, spotHazards_append,
        Expr.ownHazards]
      have hargs := exprsHazards_perm around dropped none args
      rw [← List.append_assoc]
      exact perm_append_comm.trans (.append_left _ (hcallee.append hargs))
  | .list elements _ => by
    exact exprsHazards_perm around dropped none elements
  | .matching subject arms _ => by
    simp only [Expr.hazards, Expr.spots, spotHazards_cons, spotHazards_append, Expr.ownHazards,
      List.nil_append]
    exact (subject.hazards_perm around dropped).append (armsHazards_perm around dropped arms)

theorem exprsHazards_perm (around : List Pattern) (dropped : Bool) (room? : Option Nat) :
    ∀ es : List Expr, (exprsHazards es).Perm (spotHazards (exprsSpots around dropped room? es))
  | [] => .nil
  | e :: es => by
    simp only [exprsHazards, exprsSpots, spotHazards_append]
    exact (e.hazards_perm around _).append (exprsHazards_perm around dropped _ es)

theorem armsHazards_perm (around : List Pattern) (dropped : Bool) :
    ∀ arms : List Arm, (armsHazards arms).Perm (spotHazards (armsSpots around dropped arms))
  | [] => .nil
  | ⟨pattern, body, _⟩ :: arms => by
    simp only [armsHazards, armsSpots, spotHazards_append]
    have hbody := body.hazards_perm (pattern :: around) dropped
    exact hbody.append (armsHazards_perm around dropped arms)

end

mutual

/-- A statement that no fault but a call's can stand in has the places of its spots. -/
theorem Stmt.hazards_perm : ∀ s : Stmt, s.Ordinary → s.hazards.Perm (spotHazards s.spots)
  | .letVar _ value _ _ _, _ | .assign _ value _, _ | .expr value _, _
  | .ret (some value) _, _ => by
    exact value.hazards_perm [] false
  | .ret none _, _ | .breakLoop _, _ | .continueLoop _, _ => by
    exact .nil
  | .whileLoop value body _, h | .forLoop _ value body _, h | .ifElse value body none _, h => by
    simp only [Stmt.Ordinary, Stmt.hazards, onlyCalls_append] at h
    simp only [Stmt.hazards, Stmt.spots, spotHazards_append]
    exact (value.hazards_perm [] false).append (stmtsHazards_perm body h.2)
  | .loop body _, h => by
    simp only [Stmt.Ordinary, Stmt.hazards] at h
    exact stmtsHazards_perm body h
  | .ifElse condition thenBody (some elseBody) _, h => by
    simp only [Stmt.Ordinary, Stmt.hazards, onlyCalls_append] at h
    simp only [Stmt.hazards, Stmt.spots, spotHazards_append]
    refine (condition.hazards_perm [] false).append ?_
    exact (stmtsHazards_perm thenBody h.2.1).append (stmtsHazards_perm elseBody h.2.2)
  | .fn _, h | .bare _, h | .unknown, h => by
    simp only [Stmt.Ordinary, Stmt.hazards] at h
    exact absurd h (not_onlyCalls_node _)

theorem stmtsHazards_perm : ∀ ss : List Stmt, OnlyCalls (stmtsHazards ss) →
    (stmtsHazards ss).Perm (spotHazards (stmtsSpots ss))
  | [], _ => .nil
  | s :: rest, h => by
    simp only [stmtsHazards, onlyCalls_append] at h
    simp only [stmtsHazards, stmtsSpots, spotHazards_append]
    exact (s.hazards_perm h.1).append (stmtsHazards_perm rest h.2)

end

/-- The places of a program are those at its spots, each as often. -/
theorem Program.hazards_perm {p : Program} (h : OnlyCalls p.hazards) :
    p.hazards.Perm (spotHazards p.spots) := by
  obtain ⟨hfns, hstatements⟩ := h.program
  rw [hazards, spots, spotHazards_append, spotHazards, List.flatMap_assoc]
  refine .append (List.Perm.flatMap_left _ fun fn hfn => ?_) (stmtsHazards_perm _ hstatements)
  exact stmtsHazards_perm fn.body (hfns fn hfn)

/-! ### Failing -/

theorem Expr.mem_ownHazards_call {e : Expr} {name : String} {count : Nat}
    (h : .call name count ∈ e.ownHazards) :
    ∃ nameSpan? args span?, e = .call (.name name nameSpan?) args span? ∧ args.length = count := by
  cases e with
  | call callee args span? =>
    rw [ownHazards] at h
    cases callee with
    | name called nameSpan? =>
      obtain ⟨rfl, rfl⟩ : name = called ∧ count = args.length := by
        simpa [callHazards] using h
      exact ⟨nameSpan?, args, span?, rfl, rfl⟩
    | _ => cases h
  | _ => simp [ownHazards] at h

/-- A call that starves stands somewhere in a program exactly if it is one of the places. -/
theorem Program.exists_starved {p : Program} (h : OnlyCalls p.hazards) :
    (∃ spot ∈ p.spots, spot.expr.Starved) ↔
      ∃ name count, .call name count ∈ p.hazards ∧ starves name count = true := by
  have hperm := Program.hazards_perm h
  constructor
  · rintro ⟨spot, hspot, name, nameSpan?, args, span?, hcall, hstarves⟩
    refine ⟨name, args.length, hperm.mem_iff.mpr (List.mem_flatMap.mpr ⟨spot, hspot, ?_⟩), hstarves⟩
    rw [hcall]
    exact List.mem_singleton_self _
  · rintro ⟨name, count, hmem, hstarves⟩
    obtain ⟨spot, hspot, hown⟩ := List.mem_flatMap.mp (hperm.mem_iff.mp hmem)
    obtain ⟨nameSpan?, args, span?, hcall, rfl⟩ := Expr.mem_ownHazards_call hown
    exact ⟨spot, hspot, name, nameSpan?, args, span?, hcall, hstarves⟩

theorem firstFault?_eq_some_of_onlyCalls {hs : List Hazard} {fault : EmitFault} (h : OnlyCalls hs)
    (hfault : firstFault? hs = some fault) :
    ∃ (front : List Hazard) (name : String) (count : Nat) (back : List Hazard),
      hs = front ++ .call name count :: back ∧ starves name count = true ∧
      fault = .missingArg count ∧
      ∀ name count, .call name count ∈ front → starves name count = false := by
  obtain ⟨front, place, back, rfl, hplace, hfront⟩ := List.findSome?_eq_some_iff.mp hfault
  obtain ⟨name, count, rfl⟩ := h place (by simp)
  rw [Hazard.fault?_call] at hplace
  split at hplace
  · next hstarves =>
    refine ⟨front, name, count, back, rfl, hstarves, (Option.some.inj hplace).symm, ?_⟩
    intro name' count' hmem
    have hnone := hfront _ hmem
    rw [Hazard.fault?_call] at hnone
    by_contra hstarves'
    rw [Bool.not_eq_false] at hstarves'
    rw [if_pos hstarves'] at hnone
    cases hnone
  · cases hplace

/-- **Emission fails at starved calls only.**  A program that was read is not emitted if and only if
some call in it starves.  The places at which emission can fail are the calls by name of the
program, each listed once; the fault is that of the first one that starves, and it tells how many
arguments that call has. -/
theorem emit_fails_iff_starved {file : String} {ts : List Token} {p : Program}
    (h : parse file ts = .ok p) :
    ((∃ fault, p.emit = .error fault) ↔ ∃ spot ∈ p.spots, spot.expr.Starved) ∧
      p.hazards.Perm (spotHazards p.spots) ∧
      ∀ fault, p.emit = .error fault →
        ∃ (front : List Hazard) (name : String) (count : Nat) (back : List Hazard),
          p.hazards = front ++ .call name count :: back ∧
          starves name count = true ∧ fault = .missingArg count ∧
          ∀ name count, .call name count ∈ front → starves name count = false := by
  have honly := parse_onlyCalls h
  have hmeets := p.emit_meets
  have hfirst : ∀ fault, p.emit = .error fault → firstFault? p.hazards = some fault := by
    intro fault hemit
    rw [hemit] at hmeets
    exact hmeets
  refine ⟨?_, Program.hazards_perm honly, ?_⟩
  · rw [Program.exists_starved honly]
    constructor
    · rintro ⟨fault, hemit⟩
      obtain ⟨front, name, count, back, hsplit, hstarves, -⟩ :=
        firstFault?_eq_some_of_onlyCalls honly (hfirst fault hemit)
      refine ⟨name, count, ?_, hstarves⟩
      rw [hsplit]
      exact List.mem_append_right _ (List.mem_cons_self ..)
    · rintro ⟨name, count, hmem, hstarves⟩
      cases hemit : p.emit with
      | error fault => exact ⟨fault, rfl⟩
      | ok text =>
        -- Code is emitted only if no place has a fault.
        rw [hemit] at hmeets
        have hnone := List.findSome?_eq_none_iff.mp hmeets _ hmem
        rw [Hazard.fault?_call, if_pos hstarves] at hnone
        cases hnone
  · intro fault hemit
    exact firstFault?_eq_some_of_onlyCalls honly (hfirst fault hemit)

/-- A call in the subject of a match comes before those in its arms, and before the call whose
argument the match is. -/
theorem emit_fails_in_subject :
    ∃ tokens p, parse "" tokens = .ok p ∧
      p.hazards = [.call "range" 2, .call "get" 1, .call "print" 0, .call "push" 1] ∧
      p.emit = .error (.missingArg 1) ∧ ∃ spot ∈ p.spots, spot.expr.Starved := by
  obtain ⟨p, hp, hhazards, hemit⟩ : ∃ p, readProgram ""
      "range(1, 2)\npush(match get(x) \x7b None => print() \x7d)" = .ok p ∧
      p.hazards = [.call "range" 2, .call "get" 1, .call "print" 0, .call "push" 1] ∧
      p.emit = .error (.missingArg 1) :=
    exists_program String.toList_ofList (by decide +kernel) fun _ _ h => h
  obtain ⟨tokens, -, hparse⟩ := of_readProgram_eq_ok hp
  exact ⟨tokens, p, hparse, hhazards, hemit, (emit_fails_iff_starved hparse).1.mp ⟨_, hemit⟩⟩

end Owl
