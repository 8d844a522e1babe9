/-
Operations on a value of unknown type.

A type is `Unknown` where something has been reported already, and yet most
operations report such an operand once more.  `Expr.onUnknown` lists what each of
them says: arithmetic, orderings, the minus sign, `?`, matches and loops always
report it; a comparison for equality is content if both sides are `Unknown`; and
every operator is content next to an `Any`.

The operand may be any expression in any state, so the list also says how an
`Unknown` travels upwards: it goes on as `Unknown`, with one report for each
operation, up to a comparison or an `Any`.  A report is lost only if one with its
code is there for the very place, which `Checker.Answered` takes into account.
-/
import Owl.Check

namespace Owl

open CheckM

/-- The expressions whose types an operation looks at, in the order of the check. -/
def Expr.operands : Expr → List Expr
  | .binary left _ right _ => [left, right]
  | .unary _ operand _ => [operand]
  | .propagate operand _ => [operand]
  | .matching subject _ _ => [subject]
  | _ => []

/-- What an operation makes of operands of these types, one of them `Unknown`: the code of the error
that it adds, if it adds one, and its own type. -/
def Expr.onUnknown (types : List Ty) : Expr → Option String × Ty
  | .binary _ op _ _ =>
    if types.any (· == .any) then (none, .any)
    else if isArithmetic op then (some "E0304", .unknown)
    else if isEquality op then (if types.all (· == .unknown) then none else some "E0305", .bool)
    else if isOrdering op then (some "E0305", .bool)
    else (none, .unknown)
  | .unary op _ _ => (if op == "-" then some "E0304" else none, .unknown)
  | .propagate .. => (some "E0311", .unknown)
  | .matching .. => (some "E0000", .unknown)
  | _ => (none, .unknown)

/-- The second state is the first one with an error of this code at this place, if there is one.
Faults of matches are recorded every time, other errors once. -/
def Checker.Answered (code? : Option String) (pos : Position) (c d : Checker) : Prop :=
  ∃ new, d = { c with findings := c.findings ++ new } ∧
    new.map (fun f => (f.code, f.pos)) =
      (code?.filter fun code => code == "E0000" || !c.hasReported code pos).toList.map (·, pos)

namespace Checker.Answered

theorem none (pos : Position) (c : Checker) : Answered none pos c c :=
  ⟨[], by rw [List.append_nil], rfl⟩

theorem report (p : Problem) (place : Span) (c : Checker) :
    Answered (some p.code) place.start c (CheckM.report p place c).2 := by
  have hfault : (p.code == "E0000") = false := by cases p <;> rfl
  have hreport : (CheckM.report p place c).2 =
      if c.hasReported p.code place.start then c
      else { c with findings := c.findings ++ [.diagnostic (p.toDiagnostic place)] } := rfl
  rw [hreport, Answered, Option.filter_some, hfault, Bool.false_or]
  by_cases h : c.hasReported p.code place.start = true
  · rw [if_pos h, h]
    exact ⟨[], by rw [List.append_nil], rfl⟩
  · rw [if_neg h, Bool.eq_false_iff.2 h]
    exact ⟨[.diagnostic (p.toDiagnostic place)], rfl, rfl⟩

theorem reportMatch (fault : MatchFault) (place : Span) (c : Checker) :
    Answered (some "E0000") place.start c (CheckM.reportMatch fault place c).2 :=
  ⟨[.matchFault fault place.start], rfl, rfl⟩

end Checker.Answered

open Checker

/-! ### The rules -/

theorem Ty.agree_of_unknown {left right : Ty} (h : left = .unknown ∨ right = .unknown) :
    left.agree right = [left, right].all (· == .unknown) := by
  rw [Bool.eq_iff_iff]
  rcases h with rfl | rfl
  · cases right <;> simp [Ty.agree, Ty.unknown]
    exact eq_comm
  · cases left <;> simp [Ty.agree, Ty.unknown]

theorem binaryRule_answered (op : String) {left right : Ty} (h : left = .unknown ∨ right = .unknown)
    (l r : Expr) (span? : Option Span) (c : Checker) :
    let answer := (Expr.binary l op r span?).onUnknown [left, right]
    (binaryRule op left right (span?.getD .dummy) c).1 = answer.2 ∧
      Answered answer.1 (span?.getD .dummy).start c
        (binaryRule op left right (span?.getD .dummy) c).2 := by
  have hnumber : (left.isNumber && right.isNumber) = false := by
    rcases h with rfl | rfl
    · rfl
    · exact Bool.and_false _
  have hstring : (op == "+" && left == .string && right == .string) = false := by
    rcases h with rfl | rfl
    · simp [Ty.unknown, Ty.string]
    · exact Bool.and_false _
  have hany : [left, right].any (· == .any) = (left == .any || right == .any) := by simp
  simp only [binaryRule, Expr.onUnknown, hnumber, hstring, hany, Ty.agree_of_unknown h]
  split
  · exact ⟨rfl, .none _ c⟩
  split
  · exact ⟨rfl, .report _ _ c⟩
  split
  · split
    · exact ⟨rfl, .none _ c⟩
    · exact ⟨rfl, .report _ _ c⟩
  split
  · exact ⟨rfl, .report _ _ c⟩
  · exact ⟨rfl, .none _ c⟩

theorem unaryRule_answered (op : String) (e : Expr) (span? : Option Span) (c : Checker) :
    let answer := (Expr.unary op e span?).onUnknown [.unknown]
    (unaryRule op .unknown (span?.getD .dummy) c).1 = answer.2 ∧
      Answered answer.1 (span?.getD .dummy).start c
        (unaryRule op .unknown (span?.getD .dummy) c).2 := by
  have hunknown : (!(Ty.unknown.isNumber || Ty.unknown == .any)) = true := by decide
  simp only [unaryRule, Expr.onUnknown, hunknown, Bool.and_true]
  split
  · exact ⟨rfl, .report _ _ c⟩
  · exact ⟨rfl, .none _ c⟩

/-! ### Operations and loops -/

theorem checkExprs_singleton (e : Expr) (c : Checker) :
    checkExprs [e] c = ([(checkExpr e c).1], (checkExpr e c).2) := rfl

theorem checkExpr_answered {e : Expr} {c : Checker} (h : .unknown ∈ (checkExprs e.operands c).1) :
    (checkExpr e c).1 = (e.onUnknown (checkExprs e.operands c).1).2 ∧
      Answered (e.onUnknown (checkExprs e.operands c).1).1 e.place.start
        (checkExprs e.operands c).2 (checkExpr e c).2 := by
  have single {operand : Expr} (h : .unknown ∈ (checkExprs [operand] c).1) :
      (checkExpr operand c).1 = .unknown := (List.mem_singleton.1 h).symm
  cases e with
  | binary left op right span? =>
    have hor : (checkExpr left c).1 = .unknown ∨ (checkExpr right (checkExpr left c).2).1 = .unknown :=
      (List.mem_cons.1 h).imp Eq.symm fun h => (List.mem_singleton.1 h).symm
    exact binaryRule_answered op hor left right span? _
  | unary op operand span? =>
    have hcheck : checkExpr (.unary op operand span?) c =
        unaryRule op (checkExpr operand c).1 (span?.getD .dummy) (checkExpr operand c).2 := rfl
    rw [hcheck, Expr.operands, checkExprs_singleton, single h]
    exact unaryRule_answered op operand span? _
  | propagate operand span? =>
    have hcheck : checkExpr (.propagate operand span?) c =
        propagateRule (checkExpr operand c).1 (span?.getD .dummy) (checkExpr operand c).2 := rfl
    rw [hcheck, single h]
    exact ⟨rfl, .report (.tryNotResult _) _ _⟩
  | matching subject arms span? =>
    have hcheck : checkExpr (.matching subject arms span?) c =
        matchRule (checkExpr subject c).1 (checkArms (checkExpr subject c).1 arms) (span?.getD .dummy)
          (checkExpr subject c).2 := rfl
    rw [hcheck, single h]
    exact ⟨rfl, .reportMatch _ _ _⟩
  | _ => cases h

/-- The check goes into the body of a loop over a value of unknown type, with the loop reported. -/
theorem checkFor_answered {collection : Expr} {c : Checker}
    (h : (checkExpr collection c).1 = .unknown) (use : Use) (item : String) (body : List Stmt)
    (span? : Option Span) :
    ∃ d, Answered (some "E0507") collection.place.start (checkExpr collection c).2 d ∧
      (checkStmt use (.forLoop item collection body span?) c).2 =
        (forRule item .unknown (checkStmts body) span? d).2 := by
  refine ⟨_, .report (.notIterable Ty.unknown.text) _ _, ?_⟩
  have hcheck : (checkStmt use (.forLoop item collection body span?) c).2 =
      ((elementRule (checkExpr collection c).1 collection.place >>= fun element =>
        forRule item element (checkStmts body) span?) (checkExpr collection c).2).2 := rfl
  rw [hcheck, h]
  rfl

/-- An operation with an operand of unknown type adds to what is behind its operands exactly the
error that is listed for it, and has the type that is listed.  A loop over a value of unknown type
adds an error of its own before its body is checked. -/
theorem unknown_operand_answered (c : Checker) :
    (∀ e : Expr, .unknown ∈ (checkExprs e.operands c).1 →
      (checkExpr e c).1 = (e.onUnknown (checkExprs e.operands c).1).2 ∧
        Answered (e.onUnknown (checkExprs e.operands c).1).1 e.place.start
          (checkExprs e.operands c).2 (checkExpr e c).2) ∧
      ∀ (use : Use) (item : String) (collection : Expr) (body : List Stmt) (span? : Option Span),
        (checkExpr collection c).1 = .unknown →
          ∃ d, Answered (some "E0507") collection.place.start (checkExpr collection c).2 d ∧
            (checkStmt use (.forLoop item collection body span?) c).2 =
              (forRule item .unknown (checkStmts body) span? d).2 :=
  ⟨fun _ => checkExpr_answered,
    fun use item _ body span? h => checkFor_answered h use item body span?⟩

/-- Two names that are not defined, compared: nothing but the names is reported. -/
theorem unknown_operand_answered_equality :
    let e := Expr.binary (.name "x" none) "==" (.name "y" none) none
    .unknown ∈ (checkExprs e.operands .new).1 ∧
      Answered none e.place.start (checkExprs e.operands .new).2 (checkExpr e .new).2 := by
  intro e
  have hunknown : Ty.unknown ∈ (checkExprs e.operands .new).1 := by decide
  exact ⟨hunknown, ((unknown_operand_answered .new).1 e hunknown).2⟩

/-- A sum with a name that is not defined is reported twice, for the name and for the sum. -/
theorem unknown_operand_reported_again :
    let e := Expr.binary (.name "x" none) "+" (.int 1 none) none
    .unknown ∈ (checkExprs e.operands .new).1 ∧
      (checkExprs e.operands .new).2.findings.map Finding.code = ["E0302"] ∧
      (checkExpr e .new).2.findings.map Finding.code = ["E0302", "E0304"] := by
  decide

end Owl
