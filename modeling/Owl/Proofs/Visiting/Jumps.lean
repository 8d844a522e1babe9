/-
Jumps and the loops around them.

`break` and `continue` belong to the loop around them, and the check counts the loops
that are open to tell whether there is one.  Statements stand in other statements in
two ways, in the branches of a choice and in the body of a loop, and the branches are
checked by different rules, in different orders.  The count does not depend on that.
-/
import Owl.Proofs.Visiting.Reports

namespace Owl

open Checker CheckM

variable {s : Stmt} {x : Fragment} {p : Program} {c : Checker}

/-! ### Statements outside of loops -/

mutual

/-- A statement and those in its branches, but not what stands in the body of a loop. -/
def Stmt.unlooped : Stmt → List Stmt
  | .ifElse condition thenBody none span? =>
    .ifElse condition thenBody none span? :: stmtsUnlooped thenBody
  | .ifElse condition thenBody (some elseBody) span? =>
    .ifElse condition thenBody (some elseBody) span? ::
      (stmtsUnlooped thenBody ++ stmtsUnlooped elseBody)
  | s => [s]

def stmtsUnlooped : List Stmt → List Stmt
  | [] => []
  | s :: rest => s.unlooped ++ stmtsUnlooped rest

end

/-- The statements of a program that no loop of their function, or of their top-level statement, is
around. -/
def Program.unlooped (p : Program) : List Stmt :=
  p.functions.flatMap (fun fn => stmtsUnlooped fn.body) ++ stmtsUnlooped p.statements

/-- The statements of a fragment that no loop in the fragment is around. -/
def Fragment.unlooped : Fragment → List Stmt
  | expr _ | exprs _ | arms .. => []
  | stmt _ s => s.unlooped
  | stmts ss | body _ ss => stmtsUnlooped ss
  | last ss => stmtsUnlooped ss.getLast?.toList
  | init ss => stmtsUnlooped ss.dropLast

theorem Stmt.mem_unlooped_self (s : Stmt) : s ∈ s.unlooped := by
  rw [unlooped.eq_def]
  split <;> exact List.mem_cons_self ..

theorem Stmt.mem_unlooped_ifElse {s condition thenBody elseBody? span?} :
    s ∈ (Stmt.ifElse condition thenBody elseBody? span?).unlooped ↔
      s = .ifElse condition thenBody elseBody? span? ∨ s ∈ stmtsUnlooped thenBody ∨
        ∃ elseBody ∈ elseBody?, s ∈ stmtsUnlooped elseBody := by
  cases elseBody? <;> simp [unlooped]

theorem mem_stmtsUnlooped_cons {first : Stmt} {rest : List Stmt} :
    s ∈ stmtsUnlooped (first :: rest) ↔ s ∈ first.unlooped ∨ s ∈ stmtsUnlooped rest := by
  rw [stmtsUnlooped, List.mem_append]

/-- A block is its last statement and the others. -/
theorem mem_stmtsUnlooped_ends {ss : List Stmt} :
    s ∈ stmtsUnlooped ss ↔
      s ∈ stmtsUnlooped ss.getLast?.toList ∨ s ∈ stmtsUnlooped ss.dropLast := by
  induction ss with
  | nil => simp [stmtsUnlooped]
  | cons first rest ih =>
    cases rest with
    | nil => simp [stmtsUnlooped]
    | cons next rest =>
      rw [mem_stmtsUnlooped_cons, ih, List.getLast?_cons_cons, List.dropLast_cons_cons,
        mem_stmtsUnlooped_cons]
      exact or_left_comm

theorem Program.mem_unlooped : s ∈ p.unlooped ↔ ∃ x ∈ p.blocks, s ∈ x.unlooped := by
  simp [unlooped, blocks, Fragment.unlooped, or_and_right, exists_or]

/-! ### Steps -/

namespace Fragment.Step

variable {x y : Fragment × Checker}

theorem loopDepth_eq (h : Step x y) (hx : x.1.isLoop = false) :
    y.2.loopDepth = x.2.loopDepth := by
  have hnot : ¬ x.1.isLoop = true := by simp [hx]
  exact h.state (S := fun c d => d.loopDepth = c.loopDepth) kept_account Kept.loopDepth
    Kept.loopDepth (fun _ _ => Kept.loopDepth) (fun hloop => absurd hloop hnot)
    (fun hloop => absurd hloop hnot)

/-- Where no loop is open behind a step, none was open before it, and the step leads to statements
that no loop is around. -/
theorem unlooped (h : Step x y) (hy : y.2.loopDepth = 0) :
    x.2.loopDepth = 0 ∧ y.1.unlooped ⊆ x.1.unlooped := by
  constructor
  · have hle : x.2.loopDepth ≤ y.2.loopDepth := by
      refine h.state (S := fun c d => c.loopDepth ≤ d.loopDepth) kept_account ?_ ?_ ?_ ?_ ?_
      · exact fun hkept => hkept.loopDepth.ge
      · exact fun hkept => hkept.loopDepth.ge
      · exact fun _ _ hkept => hkept.loopDepth.ge
      · exact fun _ _ _ hkept => hkept.loopDepth.ge.trans (Nat.le_succ _)
      · exact fun _ _ _ _ _ hkept => hkept.loopDepth.ge.trans (Nat.le_succ _)
    exact Nat.le_zero.mp (hy ▸ hle)
  · intro s hs
    cases h with
    | whileBody | forBody | loopBody => cases hy
    | thenBody => exact Stmt.mem_unlooped_ifElse.mpr (.inr (.inl hs))
    | thenLast =>
      exact Stmt.mem_unlooped_ifElse.mpr (.inr (.inl (mem_stmtsUnlooped_ends.mpr (.inl hs))))
    | thenInit =>
      exact Stmt.mem_unlooped_ifElse.mpr (.inr (.inl (mem_stmtsUnlooped_ends.mpr (.inr hs))))
    | elseBody => exact Stmt.mem_unlooped_ifElse.mpr (.inr (.inr ⟨_, rfl, hs⟩))
    | elseLast =>
      exact Stmt.mem_unlooped_ifElse.mpr
        (.inr (.inr ⟨_, rfl, mem_stmtsUnlooped_ends.mpr (.inl hs)⟩))
    | elseInit =>
      exact Stmt.mem_unlooped_ifElse.mpr
        (.inr (.inr ⟨_, rfl, mem_stmtsUnlooped_ends.mpr (.inr hs)⟩))
    | firstStmt | lastStmt | firstInit | firstOfBody =>
      exact mem_stmtsUnlooped_cons.mpr (.inl hs)
    | restStmts | restInit | restOfBody => exact mem_stmtsUnlooped_cons.mpr (.inr hs)
    | restLast =>
      exact hs
    | _ => cases hs

end Fragment.Step

/-! ### Runs -/

/-- A statement that no loop in a fragment is around is the fragment itself, or the check goes on to
it without a step into a loop. -/
theorem Fragment.step_of_unlooped (h : s ∈ x.unlooped) (c : Checker) :
    (∃ use, x = .stmt use s) ∨
      x.isLoop = false ∧ ∃ y d, Step (x, c) (y, d) ∧ s ∈ y.unlooped := by
  cases x with
  | expr | exprs | arms => cases h
  | stmt use t =>
    cases t with
    | ifElse condition thenBody elseBody? span? =>
      rcases Stmt.mem_unlooped_ifElse.mp h with rfl | hthen | ⟨elseBody, rfl, helse⟩
      · exact .inl ⟨use, rfl⟩
      · refine .inr ⟨rfl, ?_⟩
        cases use with
        | effect => exact ⟨_, _, .thenBody, hthen⟩
        | value =>
          rcases mem_stmtsUnlooped_ends.mp hthen with hlast | hinit
          · exact ⟨_, _, .thenLast, hlast⟩
          · exact ⟨_, _, .thenInit rfl, hinit⟩
      · refine .inr ⟨rfl, ?_⟩
        cases use with
        | effect => exact ⟨_, _, .elseBody rfl, helse⟩
        | value =>
          rcases mem_stmtsUnlooped_ends.mp helse with hlast | hinit
          · exact ⟨_, _, .elseLast rfl, hlast⟩
          · exact ⟨_, _, .elseInit rfl, hinit⟩
    | _ =>
      obtain rfl : s = _ := by simpa [unlooped, Stmt.unlooped] using h
      exact .inl ⟨use, rfl⟩
  | stmts ss =>
    cases ss with
    | nil => cases h
    | cons first rest =>
      rcases mem_stmtsUnlooped_cons.mp h with h | h
      · exact .inr ⟨rfl, _, _, .firstStmt, h⟩
      · exact .inr ⟨rfl, _, _, .restStmts, h⟩
  | last ss =>
    rcases ss with _ | ⟨first, _ | ⟨next, rest⟩⟩
    · cases h
    · have hfirst : s ∈ first.unlooped := by simpa [unlooped, stmtsUnlooped] using h
      exact .inr ⟨rfl, _, _, .lastStmt, hfirst⟩
    · rw [unlooped, List.getLast?_cons_cons] at h
      exact .inr ⟨rfl, _, _, .restLast, h⟩
  | init ss =>
    rcases ss with _ | ⟨first, _ | ⟨next, rest⟩⟩
    · cases h
    · cases h
    · rcases mem_stmtsUnlooped_cons.mp h with h | h
      · exact .inr ⟨rfl, _, _, .firstInit, h⟩
      · exact .inr ⟨rfl, _, _, .restInit, h⟩
  | body returned ss =>
    rcases ss with _ | ⟨first, rest⟩
    · cases h
    · rcases mem_stmtsUnlooped_cons.mp h with h | h
      · exact .inr ⟨rfl, _, _, .firstOfBody, h⟩
      · cases rest with
        | nil => cases h
        | cons next rest => exact .inr ⟨rfl, _, _, .restOfBody rfl, h⟩

/-- The check comes from a fragment to each statement that no loop in the fragment is around, with
the loops open that were. -/
theorem Fragment.reaches_unlooped (h : s ∈ x.unlooped) (c : Checker) :
    ∃ use d, Relation.ReflTransGen Step (x, c) (.stmt use s, d) ∧ d.loopDepth = c.loopDepth := by
  induction hsize : x.size using Nat.strong_induction_on generalizing x c with
  | h n ih =>
    rcases step_of_unlooped h c with ⟨use, rfl⟩ | ⟨hx, y, d, hstep, hy⟩
    · exact ⟨use, c, .refl, rfl⟩
    · obtain ⟨use, e, hreach, hdepth⟩ := ih y.size (hsize ▸ hstep.size_lt) hy d rfl
      exact ⟨use, e, .head hstep hreach, hdepth.trans (hstep.loopDepth_eq hx)⟩

/-! ### Programs -/

theorem functionStarts_loopDepth (fns : List FnDecl) :
    ∀ start ∈ functionStarts fns c, start.2.loopDepth = c.loopDepth := by
  have hR := kept_account
  induction fns generalizing c with
  | nil => exact List.forall_mem_nil _
  | cons fn fns ih =>
    refine List.forall_mem_cons.mpr ⟨?_, fun start hstart => ?_⟩
    · have hparams : Kept _ _ :=
        Costs.forM hR (defineParam_costs hR) fn.params { c with env := c.env.push }
      exact hparams.loopDepth
    · have hfirst : Kept c _ := checkFunction_costs hR (fun _ _ => ⟨.refl _, rfl⟩) fn c
      exact (ih start hstart).trans hfirst.loopDepth

theorem Program.root_kept (p : Program) : Kept Checker.new p.root := by
  have hR := kept_account
  have hdeclare : ∀ fn, Costs (fun _ => Kept) 0 (declare fn) := fun fn =>
    .free_bind hR (signatureOf_costs hR (fun _ _ => trivial) fn) fun _ c => ⟨.defineFn _ _ _, rfl⟩
  exact (Costs.forM hR hdeclare p.functions new).trans
    (Costs.forM hR (fun name => defineVar_costs hR name { type := .any }) _ _)

theorem starts_loopDepth (p : Program) : ∀ start ∈ p.starts, start.2.loopDepth = 0 := by
  have hroot : p.root.loopDepth = 0 := p.root_kept.loopDepth
  intro start hstart
  rcases List.mem_append.mp hstart with hstart | hstart
  · exact (functionStarts_loopDepth p.functions start hstart).trans hroot
  · obtain rfl := List.mem_singleton.mp hstart
    have hfunctions : Kept p.root _ :=
      checkFunctions_costs kept_account (fun _ _ => ⟨.refl _, rfl⟩) p.functions p.root
    exact hfunctions.loopDepth.trans hroot

/-- Where no loop is open, the check is at a statement that no loop is around. -/
theorem Program.Reaches.unlooped (h : p.Reaches x c) (hc : c.loopDepth = 0) :
    x.unlooped ⊆ p.unlooped := by
  refine h.invariant (P := fun y => y.2.loopDepth = 0 → y.1.unlooped ⊆ p.unlooped) ?_ ?_ hc
  · intro start hstart _ s hs
    exact Program.mem_unlooped.mpr ⟨start.1, p.starts_fst ▸ List.mem_map_of_mem hstart, hs⟩
  · intro x y hstep hx hy
    obtain ⟨hdepth, hsubset⟩ := hstep.unlooped hy
    exact List.Subset.trans hsubset (hx hdepth)

/-- The check comes to every statement that no loop is around, with no loop open. -/
theorem Program.reaches_of_unlooped (h : s ∈ p.unlooped) :
    ∃ use c, p.Reaches (.stmt use s) c ∧ c.loopDepth = 0 := by
  obtain ⟨x, hx, hs⟩ := Program.mem_unlooped.mp h
  rw [← p.starts_fst] at hx
  obtain ⟨start, hstart, rfl⟩ := List.mem_map.mp hx
  obtain ⟨use, c, hreach, hdepth⟩ := Fragment.reaches_unlooped hs start.2
  exact ⟨use, c, ⟨start, hstart, hreach⟩, hdepth.trans (starts_loopDepth p start hstart)⟩

/-! ### Jumps -/

theorem Fragment.fault?_eq_break {pos : Position} :
    x.fault? c = some ("E0505", pos) ↔
      c.loopDepth = 0 ∧ ∃ use span?, x = .stmt use (.breakLoop span?) ∧
        (span?.getD .dummy).start = pos := by
  rw [fault?.eq_def]
  split <;> simp_all

theorem Fragment.fault?_eq_continue {pos : Position} :
    x.fault? c = some ("E0506", pos) ↔
      c.loopDepth = 0 ∧ ∃ use span?, x = .stmt use (.continueLoop span?) ∧
        (span?.getD .dummy).start = pos := by
  rw [fault?.eq_def]
  split <;> simp_all

/-- A statement that is at fault exactly where no loop is open is found at fault exactly where it
stands outside of loops. -/
theorem check_finds_jump {file : String} (hread : p.Read file) {code : String}
    (hcode : code ∈ ownCodes) {jump : Option Span → Stmt}
    (hplaced : ∀ {span? us}, (jump span?).Read file us → ∃ span, span? = some span)
    (hfault : ∀ {x : Fragment} {c : Checker} {pos : Position}, x.fault? c = some (code, pos) ↔
      c.loopDepth = 0 ∧ ∃ use span?, x = .stmt use (jump span?) ∧
        (span?.getD .dummy).start = pos)
    (pos : Position) :
    (Checker.new.check p).Finds code pos ↔
      ∃ span, jump (some span) ∈ p.unlooped ∧ span.start = pos := by
  rw [check_finds_iff hread hcode]
  constructor
  · rintro ⟨x, c, hreach, hx⟩
    obtain ⟨hdepth, use, span?, rfl, hpos⟩ := hfault.mp hx
    obtain ⟨us, hjump⟩ := hreach.read hread
    obtain ⟨span, rfl⟩ := hplaced hjump
    exact ⟨span, hreach.unlooped hdepth (Stmt.mem_unlooped_self _), hpos⟩
  · rintro ⟨span, hjump, rfl⟩
    obtain ⟨use, c, hreach, hdepth⟩ := Program.reaches_of_unlooped hjump
    exact ⟨_, c, hreach, hfault.mpr ⟨hdepth, use, some span, rfl, rfl⟩⟩

/-- **Jumps are judged exactly.**  The places at which the check of a program that was read finds a
`break` or a `continue` outside of loops are those of the `break` and `continue` statements that no
loop of the same function, or of the same top-level statement, is around. -/
theorem check_jumps {p : Program} (hp : p.Parsed) (pos : Position) :
    ((Checker.new.check p).Finds "E0505" pos ↔
      ∃ span, .breakLoop (some span) ∈ p.unlooped ∧ span.start = pos) ∧
    ((Checker.new.check p).Finds "E0506" pos ↔
      ∃ span, .continueLoop (some span) ∈ p.unlooped ∧ span.start = pos) := by
  obtain ⟨file, tokens, hparse⟩ := hp
  have hread := Program.read_of_parse hparse
  constructor
  · refine check_finds_jump hread (by simp) (fun hjump => ?_) Fragment.fault?_eq_break pos
    cases hjump
    exact ⟨_, rfl⟩
  · refine check_finds_jump hread (by simp) (fun hjump => ?_) Fragment.fault?_eq_continue pos
    cases hjump
    exact ⟨_, rfl⟩

/-- Jumps in the branches of a function, one of them behind a loop that holds another. -/
theorem check_jumps_branches :
    ∃ p, readProgram "" ("fn f(c) \x7b if c \x7b while c \x7b if c \x7b break \x7d \x7d\n" ++
        "continue \x7d else \x7b break \x7d \x7d") = .ok p ∧
      (Checker.new.check p).Finds "E0506" ⟨2, 1⟩ ∧ (Checker.new.check p).Finds "E0505" ⟨2, 19⟩ ∧
      ¬ (Checker.new.check p).Finds "E0505" ⟨1, 35⟩ ∧
      ∀ pos, ((Checker.new.check p).Finds "E0505" pos ↔
          ∃ span, .breakLoop (some span) ∈ p.unlooped ∧ span.start = pos) ∧
        ((Checker.new.check p).Finds "E0506" pos ↔
          ∃ span, .continueLoop (some span) ∈ p.unlooped ∧ span.start = pos) := by
  refine exists_program (P := fun p => (Checker.new.check p).Finds "E0506" ⟨2, 1⟩ ∧
      (Checker.new.check p).Finds "E0505" ⟨2, 19⟩ ∧ ¬ (Checker.new.check p).Finds "E0505" ⟨1, 35⟩)
    toList_ofList_append (by decide +kernel) ?_
  rintro p hp ⟨hcontinue, hbreak, hinside⟩
  exact ⟨hcontinue, hbreak, hinside, check_jumps (parsed_of_readProgram hp)⟩

end Owl
