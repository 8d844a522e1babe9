/-
Which questions are guarded.

A question `e?` asks for the success of `e`.  Where it is guarded, a temporary takes
the result first, and a failure is returned before anything is done with it.  A
guard is a statement of its own, so only a question that is the whole value of a
statement can have one; a question that is a part of something larger takes the
value of its operand and never returns.
-/
import Owl.Proofs.Failing.Emission

namespace Owl

open EmitM

/-! ### Questions -/

/-- Where a question stands. -/
inductive QuestionPlace
  /-- It is the value of a `let` or a `return`, or a statement that is there for its effect. -/
  | statement
  /-- It is the value of an assignment, or the one that a function ends with. -/
  | ending
  /-- It is a part of a larger expression, or a condition or a collection. -/
  | part
deriving DecidableEq, Repr

mutual

@[simp] def Expr.questions (place : QuestionPlace) : Expr → List QuestionPlace
  | .propagate operand _ => place :: operand.questions .part
  | .binary left _ right _ => left.questions .part ++ right.questions .part
  | .unary _ operand _ => operand.questions .part
  | .call callee args _ => callee.questions .part ++ exprsQuestions args
  | .field object _ _ => object.questions .part
  | .list elements _ => exprsQuestions elements
  | .matching subject arms _ => subject.questions .part ++ armsQuestions arms
  | .int .. | .float .. | .string .. | .bool .. | .name .. | .stmt _ | .unknown => []

@[simp] def exprsQuestions : List Expr → List QuestionPlace
  | [] => []
  | e :: es => e.questions .part ++ exprsQuestions es

@[simp] def armsQuestions : List Arm → List QuestionPlace
  | [] => []
  | ⟨_, body, _⟩ :: arms => body.questions .part ++ armsQuestions arms

end

/-- What a statement is there for in a block that is used so: only the last one is its value. -/
def Use.before (use : Use) : List Stmt → Use
  | [] => use
  | _ :: _ => .effect

/-- The code of a block, which is filled up where the block has to have a value. -/
def Use.blockCode : Use → List Code → List Code
  | .effect, code => code
  | .value, code => Code.suite code

def Use.place : Use → QuestionPlace
  | .effect => .statement
  | .value => .ending

mutual

@[simp] def Stmt.questions (use : Use) : Stmt → List QuestionPlace
  | .letVar _ value _ _ _ => value.questions .statement
  | .assign _ value _ => value.questions .ending
  | .expr e _ => e.questions use.place
  | .ret none _ => []
  | .ret (some value) _ => value.questions .statement
  | .whileLoop condition body _ => condition.questions .part ++ stmtsQuestions .effect body
  | .forLoop _ collection body _ => collection.questions .part ++ stmtsQuestions .effect body
  | .loop body _ => stmtsQuestions .effect body
  | .ifElse condition thenBody none _ => condition.questions .part ++ stmtsQuestions use thenBody
  | .ifElse condition thenBody (some elseBody) _ =>
    condition.questions .part ++ (stmtsQuestions use thenBody ++ stmtsQuestions use elseBody)
  | .breakLoop _ | .continueLoop _ | .fn _ | .bare _ | .unknown => []

/-- The questions of statements, of which only the last can be used for its value. -/
@[simp] def stmtsQuestions (use : Use) : List Stmt → List QuestionPlace
  | [] => []
  | s :: rest => s.questions (use.before rest) ++ stmtsQuestions use rest

end

/-- All questions of a program, each with the place where it stands. -/
def Program.questions (p : Program) : List QuestionPlace :=
  p.functions.flatMap (fun f => stmtsQuestions .value f.body) ++ stmtsQuestions .effect p.statements

/-! ### Guards -/

/-- A guard: the number of its temporary, and what the temporary is given. -/
structure Guard where
  number : Nat
  operand : String
deriving DecidableEq, Repr

namespace Guard

def temp (g : Guard) : String := "__try_" ++ toString g.number

/-- The temporary is given its value, and is returned if it is a failure. -/
def code (g : Guard) : List Code :=
  [.assign g.temp g.operand, .branch ("isinstance(" ++ g.temp ++ ", Err)") [.ret (some g.temp)] []]

theorem temp_injective {g g' : Guard} (h : g.temp = g'.temp) : g.number = g'.number := by
  have hnumber : toString g.number = toString g'.number := by
    simpa [temp, ← String.toList_inj] using h
  have hdigits : Nat.toDigits 10 g.number = Nat.toDigits 10 g'.number := by
    simpa [Nat.toString_eq_repr, ← String.toList_inj, Nat.toList_repr] using hnumber
  -- Digits can be read back.
  rw [← Nat.ofDigitChars_toDigits (b := 10) (n := g.number) (by decide) (by decide), hdigits,
    Nat.ofDigitChars_toDigits (by decide) (by decide)]

end Guard

/-- The text of an expression: emission gives it from some number on. -/
def Expr.Spells (e : Expr) (code : String) : Prop :=
  ∃ n n', emitExpr e n = (.ok code, n')

def Expr.isQuestion : Expr → Bool
  | .propagate .. => true
  | _ => false

/-- The guards in front of a value, and its text.  A question that is no part can be guarded; one
that is the value of a statement has to be. -/
inductive Valued (place : QuestionPlace) : Expr → List Guard → String → Prop
  | guarded {operand : Expr} {span? : Option Span} {g : Guard} (hplace : place ≠ .part)
    (hoperand : operand.Spells g.operand) :
    Valued place (.propagate operand span?) [g] (g.temp ++ ".value")
  | plain {e : Expr} {code : String} (hplace : place = .statement → e.isQuestion = false)
    (hcode : e.Spells code) : Valued place e [] code

mutual

/-- Code for a statement, and the guards in it. -/
inductive Stmt.Laid : Use → Stmt → List Guard → List Code → Prop
  | letVar {use name value type? isMutable span? gs code}
    (hvalue : Valued .statement value gs code) :
    Stmt.Laid use (.letVar name value type? isMutable span?) gs
      (gs.flatMap Guard.code ++ [Code.assign name code])
  | assign {use name value span? gs code} (hvalue : Valued .ending value gs code) :
    Stmt.Laid use (.assign name value span?) gs (gs.flatMap Guard.code ++ [Code.assign name code])
  | value {e span? gs code} (hvalue : Valued .ending e gs code) :
    Stmt.Laid .value (.expr e span?) gs (gs.flatMap Guard.code ++ [Code.ret (some code)])
  | question {operand question? span?} {g : Guard} (hoperand : operand.Spells g.operand) :
    Stmt.Laid .effect (.expr (.propagate operand question?) span?) [g] g.code
  | effect {e span? code} (hplain : e.isQuestion = false) (hcode : e.Spells code) :
    Stmt.Laid .effect (.expr e span?) [] [.eval code]
  | retNone {use span?} : Stmt.Laid use (.ret none span?) [] [.ret none]
  | ret {use value span? gs code} (hvalue : Valued .statement value gs code) :
    Stmt.Laid use (.ret (some value) span?) gs (gs.flatMap Guard.code ++ [Code.ret (some code)])
  | whileLoop {use condition body span? gs code bodyCode} (hcondition : condition.Spells code)
    (hbody : BlockLaid .effect body gs bodyCode) :
    Stmt.Laid use (.whileLoop condition body span?) gs [.whileLoop code (Code.suite bodyCode)]
  | forLoop {use item collection body span? gs code bodyCode} (hcollection : collection.Spells code)
    (hbody : BlockLaid .effect body gs bodyCode) :
    Stmt.Laid use (.forLoop item collection body span?) gs
      [.forLoop item code (Code.suite bodyCode)]
  | loop {use body span? gs bodyCode} (hbody : BlockLaid .effect body gs bodyCode) :
    Stmt.Laid use (.loop body span?) gs [.whileLoop "True" (Code.suite bodyCode)]
  | breakLoop {use span?} : Stmt.Laid use (.breakLoop span?) [] [.breakLoop]
  | continueLoop {use span?} : Stmt.Laid use (.continueLoop span?) [] [.continueLoop]
  | ifThen {use condition thenBody span? gs code thenCode} (hcondition : condition.Spells code)
    (hthen : BlockLaid use thenBody gs thenCode) :
    Stmt.Laid use (.ifElse condition thenBody none span?) gs
      [.branch code (use.blockCode thenCode) []]
  | ifElse {use condition thenBody elseBody span? gs gs' code thenCode elseCode}
    (hcondition : condition.Spells code) (hthen : BlockLaid use thenBody gs thenCode)
    (helse : BlockLaid use elseBody gs' elseCode) :
    Stmt.Laid use (.ifElse condition thenBody (some elseBody) span?) (gs ++ gs')
      [.branch code (use.blockCode thenCode) elseCode]

/-- Code for statements, and the guards in it. -/
inductive BlockLaid : Use → List Stmt → List Guard → List Code → Prop
  | nil {use} : BlockLaid use [] [] []
  | cons {use s rest gs gs' code code'} (hfirst : Stmt.Laid (use.before rest) s gs code)
    (hrest : BlockLaid use rest gs' code') :
    BlockLaid use (s :: rest) (gs ++ gs') (code ++ code')

end

/-- Code for functions, and the guards in it. -/
inductive FnsLaid : List FnDecl → List Guard → List CodeFn → Prop
  | nil : FnsLaid [] [] []
  | cons {f : FnDecl} {fs gs gs' body fns} (hbody : BlockLaid .value f.body gs body)
    (hrest : FnsLaid fs gs' fns) :
    FnsLaid (f :: fs) (gs ++ gs') (⟨f.name, f.params.map Param.name, Code.suite body⟩ :: fns)

/-- Code for a program, and the guards in it: first those of the functions. -/
inductive Program.Laid (p : Program) : List Guard → CodeFile → Prop
  | mk {gs gs' file} (hfunctions : FnsLaid p.functions gs file.functions)
    (hstatements : BlockLaid .effect p.statements gs' file.statements) :
    p.Laid (gs ++ gs') file

/-! ### Numbers -/

section Numbers

variable {n l n' : Nat} {gs gs' : List Guard}

/-- Guards whose temporaries are numbered in order, from `n` on and below `n'`. -/
structure Numbered (n n' : Nat) (gs : List Guard) : Prop where
  le : n ≤ n'
  bounds : ∀ g ∈ gs, n ≤ g.number ∧ g.number < n'
  increasing : gs.Pairwise fun g g' => g.number < g'.number

theorem Numbered.nil (h : n ≤ n') : Numbered n n' [] where
  le := h
  bounds := nofun
  increasing := .nil

theorem Numbered.single (operand : String) (h : n < n') : Numbered n n' [⟨n, operand⟩] where
  le := Nat.le_of_lt h
  bounds := by simpa using h
  increasing := List.pairwise_singleton _ _

theorem Numbered.append (h : Numbered n l gs) (h' : Numbered l n' gs') :
    Numbered n n' (gs ++ gs') where
  le := Nat.le_trans h.le h'.le
  bounds := by
    intro g hg
    obtain hg | hg := List.mem_append.mp hg
    · exact ⟨(h.bounds g hg).1, Nat.lt_of_lt_of_le (h.bounds g hg).2 h'.le⟩
    · exact ⟨Nat.le_trans h.le (h'.bounds g hg).1, (h'.bounds g hg).2⟩
  increasing := by
    refine List.pairwise_append.mpr ⟨h.increasing, h'.increasing, fun g hg g' hg' => ?_⟩
    exact Nat.lt_of_lt_of_le (h.bounds g hg).2 (h'.bounds g' hg').1

theorem Numbered.of_le (h : n ≤ l) (h' : Numbered l n' gs) : Numbered n n' gs :=
  (Numbered.nil h).append h'

theorem Numbered.nodup_temps (h : Numbered n n' gs) : (gs.map Guard.temp).Nodup := by
  refine List.pairwise_map.mpr (h.increasing.imp fun hlt htemp => ?_)
  exact Nat.ne_of_lt hlt (Guard.temp_injective htemp)

end Numbers

/-! ### Values -/

section Runs

variable {e operand : Expr} {span? : Option Span} {code : String} {n n' : Nat}

theorem emitExpr_le (h : emitExpr e n = (.ok code, n')) : n ≤ n' := by
  simpa [h] using (emitExpr_meets e n).2

theorem emitExpr_spells (h : emitExpr e n = (.ok code, n')) : e.Spells code := ⟨n, n', h⟩

/-- A question whose text is needed takes the value of its operand. -/
theorem Expr.spells_propagate :
    (Expr.propagate operand span?).Spells code ↔
      ∃ inner, operand.Spells inner ∧ code = "(" ++ inner ++ ").value" := by
  constructor
  · rintro ⟨n, n', h⟩
    rw [emitExpr] at h
    obtain ⟨inner, l, hrun, h⟩ := of_bind_eq_ok h
    cases h
    exact ⟨inner, emitExpr_spells hrun, rfl⟩
  · rintro ⟨inner, ⟨n, n', hrun⟩, rfl⟩
    refine ⟨n, n', ?_⟩
    rw [emitExpr, bind_of_ok hrun]
    rfl

/-- A guarded value has one guard, and goes on with what comes after it. -/
theorem of_emitGuarded {after : String → List Code} {codes : List Code}
    (h : emitGuarded operand after n = (.ok codes, n')) :
    ∃ g : Guard, operand.Spells g.operand ∧ Numbered n n' [g] ∧ codes = g.code ++ after g.temp := by
  rw [emitGuarded] at h
  obtain ⟨number, l, hfresh, h⟩ := of_bind_eq_ok h
  obtain ⟨text, l', hrun, h⟩ := of_bind_eq_ok h
  cases h
  cases hfresh
  exact ⟨⟨n, text⟩, emitExpr_spells hrun, .single text (emitExpr_le hrun), rfl⟩

end Runs

/-! ### Statements -/

section Lays

variable {α β : Type} {m : EmitM α} {P : List Guard → α → Prop} {Q : List Guard → β → Prop}

/-- Whatever an action returns is laid out as `P` says, with guards that take the numbers which the
action takes. -/
def EmitM.Lays (m : EmitM α) (P : List Guard → α → Prop) : Prop :=
  ∀ n n' a, m n = (.ok a, n') → ∃ gs, P gs a ∧ Numbered n n' gs

theorem EmitM.Lays.pure {a : α} (h : P [] a) : Lays (Pure.pure a) P := by
  intro n n' b hrun
  cases hrun
  exact ⟨[], h, .nil (Nat.le_refl n)⟩

theorem EmitM.Lays.fail (fault : EmitFault) : Lays (fail fault) P := fun _ _ _ hrun => nomatch hrun

theorem EmitM.Lays.bind {k : α → EmitM β} (hm : Lays m P)
    (hk : ∀ gs a, P gs a → Lays (k a) fun gs' b => Q (gs ++ gs') b) : Lays (m >>= k) Q := by
  intro n n' b hrun
  obtain ⟨a, l, ha, hb⟩ := of_bind_eq_ok hrun
  obtain ⟨gs, hP, hnumbered⟩ := hm _ _ _ ha
  obtain ⟨gs', hQ, hnumbered'⟩ := hk gs a hP _ _ _ hb
  exact ⟨gs ++ gs', hQ, hnumbered.append hnumbered'⟩

theorem EmitM.Lays.nested (hm : Lays m P) : Lays (nested m) P :=
  fun n n' a hrun => hm n n' a (of_nested_eq_ok hrun)

/-- Expressions may take numbers, but have no guards. -/
theorem EmitM.Lays.spells_bind {e : Expr} {k : String → EmitM β}
    (hk : ∀ code, e.Spells code → Lays (k code) Q) : Lays (emitExpr e >>= k) Q := by
  intro n n' b hrun
  obtain ⟨code, l, hcode, hb⟩ := of_bind_eq_ok hrun
  obtain ⟨gs, hQ, hnumbered⟩ := hk code (emitExpr_spells hcode) _ _ _ hb
  exact ⟨gs, hQ, hnumbered.of_le (emitExpr_le hcode)⟩

theorem EmitM.Lays.guarded {operand : Expr} {after : String → List Code}
    {P : List Guard → List Code → Prop}
    (h : ∀ g : Guard, operand.Spells g.operand → P [g] (g.code ++ after g.temp)) :
    Lays (emitGuarded operand after) P := by
  intro n n' codes hrun
  obtain ⟨g, hoperand, hnumbered, rfl⟩ := of_emitGuarded hrun
  exact ⟨[g], h g hoperand, hnumbered⟩

end Lays

theorem emitBlock_cons (use : Use) (s : Stmt) (rest : List Stmt) :
    emitBlock use (s :: rest) = do
      let first ← emitStmt (use.before rest) s
      let others ← emitBlock use rest
      return first ++ others := by
  cases rest with
  | nil => simp [emitBlock, Use.before]
  | cons s' rest => rw [emitBlock, Use.before]; simp

mutual

theorem emitStmt_laid (use : Use) : ∀ s : Stmt, Lays (emitStmt use s) (s.Laid use)
  | .letVar _ value _ _ _ => by
    -- A guard is laid only for a `?` that is the whole value.
    cases value with
    | propagate =>
      rw [emitStmt]
      exact .guarded fun g hoperand => .letVar (.guarded nofun hoperand)
    | _ =>
      simp only [emitStmt]
      exact .spells_bind fun _ hcode => .pure (.letVar (.plain (fun _ => rfl) hcode))
  | .assign .. => by
    rw [emitStmt]
    exact .spells_bind fun _ hcode => .pure (.assign (.plain nofun hcode))
  | .expr e _ => by
    cases use with
    | value =>
      rw [emitStmt]
      exact .spells_bind fun _ hcode => .pure (.value (.plain nofun hcode))
    | effect =>
      cases e with
      | propagate =>
        rw [emitStmt]
        exact .guarded fun g hoperand => by simpa using .question hoperand
      | _ =>
        simp only [emitStmt]
        exact .spells_bind fun _ hcode => .pure (.effect rfl hcode)
  | .ret none _ => by
    rw [emitStmt]
    exact .pure .retNone
  | .ret (some value) _ => by
    cases value with
    | propagate =>
      rw [emitStmt]
      exact .guarded fun g hoperand => .ret (.guarded nofun hoperand)
    | _ =>
      simp only [emitStmt]
      exact .spells_bind fun _ hcode => .pure (.ret (.plain (fun _ => rfl) hcode))
  | .whileLoop _ body _ => by
    rw [emitStmt]
    refine .spells_bind fun _ hcode => (emitBlock_laid .effect body).nested.bind fun _ _ hbody => ?_
    exact .pure (by simpa using .whileLoop hcode hbody)
  | .forLoop _ _ body _ => by
    rw [emitStmt]
    refine .spells_bind fun _ hcode => (emitBlock_laid .effect body).nested.bind fun _ _ hbody => ?_
    exact .pure (by simpa using .forLoop hcode hbody)
  | .loop body _ => by
    rw [emitStmt]
    refine (emitBlock_laid .effect body).nested.bind fun _ _ hbody => ?_
    exact .pure (by simpa using .loop hbody)
  | .breakLoop _ => by
    rw [emitStmt]
    exact .pure .breakLoop
  | .continueLoop _ => by
    rw [emitStmt]
    exact .pure .continueLoop
  | .ifElse _ thenBody none _ => by
    rw [emitStmt]
    refine .spells_bind fun _ hcode => ?_
    refine (emitBlock_laid use thenBody).nested.bind fun gs _ hthen => .pure ?_
    rw [List.append_nil]
    cases use <;> exact .ifThen hcode hthen
  | .ifElse _ thenBody (some elseBody) _ => by
    rw [emitStmt]
    refine .spells_bind fun _ hcode => ?_
    refine (emitBlock_laid use thenBody).nested.bind fun gs _ hthen => ?_
    refine (emitBlock_laid use elseBody).nested.bind fun gs' _ helse => .pure ?_
    rw [List.append_nil]
    cases use <;> exact .ifElse hcode hthen helse
  | .fn _ | .bare _ | .unknown => by
    rw [emitStmt]
    exact .fail _

theorem emitBlock_laid (use : Use) : ∀ ss : List Stmt, Lays (emitBlock use ss) (BlockLaid use ss)
  | [] => .pure .nil
  | s :: rest => by
    rw [emitBlock_cons]
    refine (emitStmt_laid (use.before rest) s).bind fun gs _ hfirst => ?_
    refine (emitBlock_laid use rest).bind fun gs' _ hrest => .pure ?_
    rw [List.append_nil]
    exact .cons hfirst hrest

end

/-! ### Programs -/

theorem emitFns_laid : ∀ fs : List FnDecl, Lays (fs.mapM emitFn) (FnsLaid fs)
  | [] => .pure .nil
  | f :: fs => by
    rw [List.mapM_cons, emitFn, bind_assoc]
    refine (emitBlock_laid .value f.body).nested.bind fun gs _ hbody => ?_
    rw [pure_bind]
    refine (emitFns_laid fs).bind fun gs' _ hrest => .pure ?_
    rw [List.append_nil]
    exact .cons hbody hrest

/-- Emission lays out the code of a program, and numbers the temporaries in the order of the
guards. -/
theorem emitProgram_laid {p : Program} {n n' : Nat} {file : CodeFile}
    (h : emitProgram p n = (.ok file, n')) : ∃ gs, p.Laid gs file ∧ Numbered n n' gs := by
  rw [emitProgram] at h
  obtain ⟨functions, l, hfunctions, h⟩ := of_bind_eq_ok h
  obtain ⟨statements, l', hstatements, h⟩ := of_bind_eq_ok h
  cases h
  -- the numbers of the statements go on where those of the functions end
  obtain ⟨gs, hlaid, hnumbered⟩ := emitFns_laid p.functions _ _ _ hfunctions
  obtain ⟨gs', hlaid', hnumbered'⟩ := emitBlock_laid .effect p.statements _ _ _ hstatements
  exact ⟨gs ++ gs', .mk hlaid hlaid', hnumbered.append hnumbered'⟩

/-! ### Counting -/

/-- As many guards as there are questions that have to be guarded, and no more than there are
questions that can be. -/
structure Counted (qs : List QuestionPlace) (gs : List Guard) : Prop where
  enough : qs.count .statement ≤ gs.length
  atMost : gs.length ≤ qs.count .statement + qs.count .ending

theorem Counted.nil : Counted [] [] := ⟨Nat.le_refl 0, Nat.le_refl 0⟩

theorem Counted.append {qs qs' : List QuestionPlace} {gs gs' : List Guard} (h : Counted qs gs)
    (h' : Counted qs' gs') : Counted (qs ++ qs') (gs ++ gs') := by
  obtain ⟨henough, hatMost⟩ := h
  obtain ⟨henough', hatMost'⟩ := h'
  constructor <;> simp only [List.count_append, List.length_append] <;> omega

/-- Parts have no guards. -/
theorem Counted.of_parts {qs : List QuestionPlace} (h : ∀ q ∈ qs, q = .part) : Counted qs [] := by
  have hnone : ∀ place, place ≠ .part → qs.count place = 0 := fun place hplace =>
    List.count_eq_zero.mpr fun hmem => hplace (h place hmem)
  constructor <;> simp [hnone]

mutual

theorem Expr.questions_part : ∀ e : Expr, ∀ q ∈ e.questions .part, q = .part
  | .int .. | .float .. | .string .. | .bool .. | .name .. | .stmt _ | .unknown => by simp
  | .binary left _ right _ => by
    simpa [or_imp, forall_and] using ⟨left.questions_part, right.questions_part⟩
  | .unary _ operand _ | .field operand _ _ | .propagate operand _ => by
    simpa using operand.questions_part
  | .call callee args _ => by
    simpa [or_imp, forall_and] using ⟨callee.questions_part, exprsQuestions_part args⟩
  | .list elements _ => by simpa using exprsQuestions_part elements
  | .matching subject arms _ => by
    simpa [or_imp, forall_and] using ⟨subject.questions_part, armsQuestions_part arms⟩

theorem exprsQuestions_part : ∀ es : List Expr, ∀ q ∈ exprsQuestions es, q = .part
  | [] => by simp
  | e :: es => by simpa [or_imp, forall_and] using ⟨e.questions_part, exprsQuestions_part es⟩

theorem armsQuestions_part : ∀ arms : List Arm, ∀ q ∈ armsQuestions arms, q = .part
  | [] => by simp
  | ⟨_, body, _⟩ :: arms => by
    simpa [or_imp, forall_and] using ⟨body.questions_part, armsQuestions_part arms⟩

end

theorem Expr.answered_part (e : Expr) : Counted (e.questions .part) [] :=
  .of_parts e.questions_part

/-- The place of an expression is that of its question; what is inside are parts. -/
theorem Expr.questions_of_plain {e : Expr} (h : e.isQuestion = false) (place : QuestionPlace) :
    e.questions place = e.questions .part := by
  cases e <;> first | rfl | cases h

theorem Valued.answered {place : QuestionPlace} {e : Expr} {gs : List Guard} {code : String}
    (h : Valued place e gs code) : Counted (e.questions place) gs := by
  cases h with
  | @guarded operand span? g hplace hoperand =>
    have hquestion : Counted [place] [g] := by
      cases place with
      | part => exact absurd rfl hplace
      | statement | ending => constructor <;> simp
    exact hquestion.append operand.answered_part
  | plain hplace hcode =>
    by_cases hplain : e.isQuestion = false
    · rw [Expr.questions_of_plain hplain]
      exact e.answered_part
    · cases e with
      | propagate operand span? =>
        have hquestion : Counted [place] [] := by
          constructor <;> simp [List.count_singleton, mt hplace hplain]
        exact hquestion.append operand.answered_part
      | _ => exact absurd rfl hplain

mutual

theorem Stmt.Laid.answered {use : Use} : ∀ {s : Stmt} {gs : List Guard} {code : List Code},
    s.Laid use gs code → Counted (s.questions use) gs
  | .letVar .., _, _, .letVar hvalue | .assign .., _, _, .assign hvalue
  | .expr .., _, _, .value hvalue | .ret (some _) _, _, _, .ret hvalue => hvalue.answered
  | .expr (.propagate operand question?) _, _, _, .question hoperand =>
    have hvalue : Valued .statement (.propagate operand question?) _ _ := .guarded nofun hoperand
    hvalue.answered
  | .expr .., _, _, .effect hplain hcode =>
    have hvalue : Valued .statement _ _ _ := .plain (fun _ => hplain) hcode
    hvalue.answered
  | .ret none _, _, _, .retNone | .breakLoop _, _, _, .breakLoop
  | .continueLoop _, _, _, .continueLoop => .nil
  | .whileLoop value .., _, _, .whileLoop _ hbody | .forLoop _ value .., _, _, .forLoop _ hbody
  | .ifElse value _ none _, _, _, .ifThen _ hbody => value.answered_part.append hbody.answered
  | .loop .., _, _, .loop hbody => hbody.answered
  | .ifElse condition _ (some _) _, _, _, .ifElse _ hthen helse =>
    condition.answered_part.append (hthen.answered.append helse.answered)

theorem BlockLaid.answered {use : Use} : ∀ {ss : List Stmt} {gs : List Guard} {code : List Code},
    BlockLaid use ss gs code → Counted (stmtsQuestions use ss) gs
  | [], _, _, .nil => .nil
  | _ :: _, _, _, .cons hfirst hrest => hfirst.answered.append hrest.answered

end

theorem FnsLaid.answered {fs : List FnDecl} {gs : List Guard} {fns : List CodeFn}
    (h : FnsLaid fs gs fns) :
    Counted (fs.flatMap fun f => stmtsQuestions .value f.body) gs := by
  induction h with
  | nil => exact .nil
  | cons hbody hrest ih => exact hbody.answered.append ih

theorem Program.Laid.answered {p : Program} {gs : List Guard} {file : CodeFile}
    (h : p.Laid gs file) : Counted p.questions gs := by
  obtain ⟨hfunctions, hstatements⟩ := h
  exact hfunctions.answered.append hstatements.answered

/-! ### Compiled texts -/

/-- **Which questions are guarded.**  In the code of a compiled text, every question that is the
value of a `let` or a `return`, or a statement that is there for its effect, has a guard of its own
in front of the use of its value.  There are as many guards as such questions, but for those that
are the value of an assignment or the one that a function ends with; a question that is a part of
something larger has none and takes the value of its operand. -/
theorem compile_guards {checkTypes : Bool} {source text : String}
    (h : compile checkTypes source = .ok text) :
    ∃ (p : Program) (file : CodeFile) (n : Nat) (gs : List Guard),
      readProgram Span.unknownFile source = .ok p ∧ emitProgram p 0 = (.ok file, n) ∧
      text = file.text 0 ∧ p.Laid gs file ∧ (gs.map Guard.temp).Nodup ∧
      p.questions.count .statement ≤ gs.length ∧
      gs.length ≤ p.questions.count .statement + p.questions.count .ending ∧
      ∀ operand span? code, (Expr.propagate operand span?).Spells code ↔
        ∃ inner, operand.Spells inner ∧ code = "(" ++ inner ++ ").value" := by
  obtain ⟨p, hread, -, hemit⟩ := of_compile_eq_ok h
  obtain ⟨file, n, hrun, htext⟩ := Program.of_emit_eq_ok hemit
  obtain ⟨gs, hlaid, hnumbered⟩ := emitProgram_laid hrun
  exact ⟨p, file, n, gs, hread, hrun, htext, hlaid, hnumbered.nodup_temps, hlaid.answered.enough,
    hlaid.answered.atMost, fun _ _ _ => Expr.spells_propagate⟩

/-- A question of a `let` and one in a loop are guarded, and one that is an argument is not. -/
theorem compile_guards_loop :
    ∃ (p : Program) (file : CodeFile) (gs : List Guard),
      compile true ("fn f(a: Int) -> Result[Int, String] \x7b let b = f(a)? " ++
        "while true \x7b f(b)? \x7d return Ok(f(b)?) \x7d") = .ok (file.text 0) ∧
      p.questions = [.statement, .statement, .part] ∧ p.Laid gs file ∧ gs.length = 2 ∧
      (gs.map Guard.temp).Nodup := by
  obtain ⟨text, p, h, hread, hquestions⟩ := exists_compiled
    ("fn f(a: Int) -> Result[Int, String] \x7b let b = f(a)? " ++
      "while true \x7b f(b)? \x7d return Ok(f(b)?) \x7d")
    (fun p => p.questions = [.statement, .statement, .part])
    toList_ofList_append (by decide +kernel)
  obtain ⟨p', file, n, gs, hread', -, rfl, hlaid, hnodup, henough, hatMost, -⟩ := compile_guards h
  obtain rfl := Except.ok.inj (hread.symm.trans hread')
  rw [hquestions] at henough hatMost
  exact ⟨p, file, gs, h, hquestions, hlaid, Nat.le_antisymm hatMost henough, hnodup⟩

/-- A program without findings that has a question, and no test in its code. -/
theorem compile_leaves_question :
    (readProgram Span.unknownFile ("fn f() -> Result[Int, String] \x7b return Ok(1) \x7d\n" ++
      "fn g() -> Result[Int, String] \x7b return Ok(f()? + 1) \x7d")).toOption.map
        Program.questions = some [.part] ∧
    (compile true ("fn f() -> Result[Int, String] \x7b return Ok(1) \x7d\n" ++
      "fn g() -> Result[Int, String] \x7b return Ok(f()? + 1) \x7d")).toOption =
        some ("\n".intercalate (CodeFile.runtimeLines ++ ["", "def f():", "    return Ok(1)", "",
          "def g():", "    return Ok(((f()).value + 1))", ""])) := by
  rw [readProgram_of_toList toList_ofList_append, compile_of_toList toList_ofList_append]
  decide +kernel

end Owl
