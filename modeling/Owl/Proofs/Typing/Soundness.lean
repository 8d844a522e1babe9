/-
Operations have values of the class that their type says.

An operation is made of literals, signs and operators.  In one that the check accepts
no operator meets operands that it has no rule for, so that all that evaluation can
fail by is arithmetic; and the value has the class that goes with the type, except
that a quotient of integers has the type `Int` and is a float, as is what is made of
it.
-/
import Owl.Proofs.Checking.Apart
import Owl.Proofs.Target.Evaluation
import Owl.Proofs.Target.Grouping
import Owl.Proofs.Visiting.Steps

namespace Owl

open CheckM EmitM Target

/-! ### Operations -/

/-- Whether an expression is made of literals, signs and operators.  A float that is not finite has
a name and no numeral, and is no literal. -/
def Expr.isOperation : Expr → Bool
  | .int .. | .float (.finite ..) _ | .string .. | .bool .. => true
  | .binary left _ right _ => left.isOperation && right.isOperation
  | .unary _ operand _ => operand.isOperation
  | _ => false

/-- Whether floats take part in an operation: there is a literal of a float or a division in it. -/
def Expr.floats : Expr → Bool
  | .float .. => true
  | .binary left op right _ => op == "/" || left.floats || right.floats
  | .unary _ operand _ => operand.floats
  | _ => false

/-- Every operation is emitted, and takes no numbers from the counter. -/
theorem emitExpr_operation (e : Expr) (h : e.isOperation = true) :
    ∃ code, ∀ n, emitExpr e n = (.ok code, n) := by
  fun_induction Expr.isOperation e with
  | case1 value => exact ⟨toString value, fun n => by rw [emitExpr]; rfl⟩
  | case2 => exact ⟨_, fun n => by rw [emitExpr]; rfl⟩
  | case3 value => exact ⟨stringCode value, fun n => by rw [emitExpr]; rfl⟩
  | case4 value => exact ⟨boolText value, fun n => by rw [emitExpr]; rfl⟩
  | case5 left op right _ ihleft ihright =>
    rw [Bool.and_eq_true] at h
    obtain ⟨l, hl⟩ := ihleft h.1
    obtain ⟨r, hr⟩ := ihright h.2
    refine ⟨"(" ++ l ++ " " ++ op ++ " " ++ r ++ ")", fun n => ?_⟩
    exact (bind_of_ok (hl n)).trans (bind_of_ok (hr n))
  | case6 op operand _ ih =>
    obtain ⟨code, hcode⟩ := ih h
    refine ⟨"(" ++ op ++ code ++ ")", fun n => ?_⟩
    exact bind_of_ok (hcode n)
  | case7 => cases h

/-- An operation binds as tightly as a sign, so it can be an operand of every operator. -/
theorem Expr.isAt_of_isOperation {e : Expr} (h : e.isOperation = true) : e.isAt .unary = true := by
  have hnumber (s : String) : Level.unary.order ≤ (numberLevel s).order := by
    rw [numberLevel]
    split <;> decide
  rw [isAt, decide_eq_true_iff]
  cases e with
  | int value => exact hnumber _
  | float value => exact hnumber _
  | call => cases h
  | _ => exact Nat.le_succ 5

theorem Expr.isAt_of_le {e : Expr} {level level' : Level} (h : e.isAt level = true)
    (hle : level'.order ≤ level.order) : e.isAt level' = true :=
  decide_eq_true (Nat.le_trans hle (of_decide_eq_true h))

theorem Expr.isGrouped_of_isOperation (e : Expr) (h : e.isOperation = true) :
    e.isGrouped = true := by
  fun_induction Expr.isOperation e with
  | case1 | case2 | case3 | case4 => rfl
  | case5 left op right _ ihleft ihright =>
    rw [Bool.and_eq_true] at h
    have hlevels (o : Op) : (left.isAt o.left && right.isAt o.right) = true := by
      rw [Bool.and_eq_true]
      refine ⟨isAt_of_le (isAt_of_isOperation h.1) ?_, isAt_of_le (isAt_of_isOperation h.2) ?_⟩
      · cases o <;> decide
      · cases o <;> decide
    rw [isGrouped, ihleft h.1, ihright h.2]
    cases Op.ofText? op with
    | none => rfl
    | some o => simp [hlevels o]
  | case6 _ _ _ ih =>
    rw [isGrouped, ih h, isAt_of_isOperation h]
    rfl
  | case7 => cases h

/-! ### Rules -/

namespace Target

/-- The type that goes with a class. -/
def ValueClass.type : ValueClass → Ty
  | .int => .int
  | .float => .float
  | .str => .string
  | .bool => .bool

/-- The class of a value whose type goes with the class `k`. -/
def ValueClass.given (floats : Bool) (k : ValueClass) : ValueClass :=
  if k = .int ∧ floats = true then .float else k

/-- Whether the check takes values of a class for numbers. -/
def ValueClass.isReal (k : ValueClass) : Bool := k == .int || k == .float

/-- The class whose type the check gives to an operation, if it accepts it. -/
def Op.typed? : Op → ValueClass → ValueClass → Option ValueClass
  | .eq, j, k | .ne, j, k => if j = k then some .bool else none
  | .lt, j, k | .gt, j, k | .le, j, k | .ge, j, k =>
    if j.isReal && k.isReal then some .bool else none
  | .add, .str, .str => some .str
  | .add, j, k | .sub, j, k | .mul, j, k | .div, j, k | .mod, j, k =>
    if j.isReal && k.isReal then some (j.join k) else none
  | .is, _, _ | .isNot, _, _ => none

/-- Operands that the check accepts are operands for which there is a rule, whichever of those of
type `Int` are floats. -/
theorem Op.class?_of_typed? {o : Op} {j k r : ValueClass} {left right : Bool}
    (h : o.typed? j k = some r) (hj : j = .float → left = true) (hk : k = .float → right = true) :
    o.class? (j.given left) (k.given right) = some (r.given (o == .div || left || right)) ∧
      (r = .float → (o == .div || left || right) = true) ∧
      ∀ fault ∈ o.faults (j.given left) (k.given right),
        Tree.Arises (o == .div || left || right) fault := by
  cases o <;> cases j <;> cases k <;> cases h <;> cases left <;> cases right <;>
    simp_all [class?, faults, ValueClass.given, ValueClass.join, ValueClass.isNumeric, Tree.Arises]

theorem ValueClass.negated?_given {k : ValueClass} (h : k.isReal = true) (floats : Bool) :
    (k.given floats).negated? = some (k.given floats) := by
  cases k <;> cases h <;> cases floats <;> rfl

end Target

theorem binaryRule_typed? {op : String} {o : Op} (ho : Op.ofText? op = some o) {j k : ValueClass}
    {place : Span} {c : Checker}
    (hnil : (binaryRule op j.type k.type place c).2.findings = []) :
    ∃ r, o.typed? j k = some r ∧ (binaryRule op j.type k.type place c).1 = r.type := by
  rw [Op.ofText?.eq_def] at ho
  split at ho <;> cases ho <;> cases j <;> cases k <;>
    first
    | exact ⟨_, rfl, rfl⟩
    | exact absurd hnil (Checker.findings_addDiagnostic_ne_nil _ _)

theorem unaryRule_isReal {k : ValueClass} {place : Span} {c : Checker}
    (hnil : (unaryRule "-" k.type place c).2.findings = []) :
    k.isReal = true ∧ (unaryRule "-" k.type place c).1 = k.type := by
  cases k <;>
    first
    | exact ⟨rfl, rfl⟩
    | exact absurd hnil (Checker.findings_addDiagnostic_ne_nil _ _)

theorem Target.Op.eq_div_iff {op : String} {o : Op} (ho : Op.ofText? op = some o) :
    (op == "/") = (o == .div) := by
  rw [Op.ofText?.eq_def] at ho
  split at ho <;> cases ho <;> rfl

/-! ### Literals -/

section Literals

variable (S : Semantics)

theorem numberTree_yields (negative : Bool) {cs : List Char} (hcs : IsNumeral cs) (floats : Bool) :
    (numberTree (fun s => s) (Binary64.signed negative (String.ofList cs))).Yields S
      (if cs.all Char.isDigit then .int else .float) floats := by
  have hnumber : (Tree.number (String.ofList cs)).Yields S
      (if cs.all Char.isDigit then .int else .float) floats := by
    refine .value (v := S.number (String.ofList cs)) (by rw [Tree.eval]) ?_
    rw [S.classOf_number, String.toList_ofList]
  cases negative with
  | false =>
    show (numberTree (fun s => s) (String.ofList cs)).Yields S _ floats
    rw [numberTree_unsigned (.numeral hcs), unsignedTree_numeral hcs]
    exact hnumber
  | true =>
    show (numberTree (fun s => s) ("-" ++ String.ofList cs)).Yields S _ floats
    rw [numberTree_negated, unsignedTree_numeral hcs]
    refine hnumber.neg ?_
    split <;> rfl

theorem intTree_yields (value : Int) :
    (numberTree (fun s => s) (toString value)).Yields S .int false := by
  have hdigits (n : Nat) : (Nat.toDigits 10 n).all Char.isDigit = true :=
    List.all_eq_true.mpr (isDigits_toDigits n).2
  have hnat (n : Nat) (negative : Bool) :
      (numberTree (fun s => s) (Binary64.signed negative (toString n))).Yields S .int false := by
    have h := numberTree_yields S negative (.whole (isDigits_toDigits n)) false
    rwa [hdigits, if_pos rfl, ← toString_nat] at h
  cases value with
  | ofNat n => exact hnat n false
  | negSucc n => exact hnat (n + 1) true

theorem floatTree_yields (negative : Bool) (m : Nat) (e : Int) :
    (numberTree (fun s => s) (Binary64.finite negative m e).text).Yields S .float true := by
  obtain ⟨s, hs, htext⟩ := Binary64.text_finite negative m e
  obtain ⟨hcs, c, hc, hmark⟩ := hs
  have h := numberTree_yields S negative hcs true
  rw [if_neg] at h
  · rwa [htext]
  · intro hall
    rw [List.all_eq_true.mp hall c hc] at hmark
    cases hmark

end Literals

/-! ### Evaluation -/

/-- The tree of an operation that is accepted yields a value of the class that its type goes with,
but for quotients of integers, or arithmetic fails in it. -/
theorem exprTree_yields : ∀ e : Expr, e.isOperation = true → e.isReadable = true →
    ∀ c : Checker, (checkExpr e c).2.findings = [] →
    ∃ (k : ValueClass) (t : Tree), (checkExpr e c).1 = k.type ∧ (k = .float → e.floats = true) ∧
      (∀ n, exprTree (fun s => s) e n = (.ok t, n)) ∧
      ∀ S, t.Yields S (k.given e.floats) e.floats
  | .int value _ => fun _ _ _ _ =>
    ⟨.int, _, rfl, (fun h => by cases h), fun _ => rfl, fun S => intTree_yields S value⟩
  | .float value _ => fun h _ _ _ => by
    cases value with
    | finite negative m e =>
      exact ⟨.float, _, rfl, fun _ => rfl, fun _ => rfl, fun S => floatTree_yields S negative m e⟩
    | nan | infinite => cases h
  | .string value _ => fun _ _ _ _ =>
    ⟨.str, .string (escaped value), rfl, (fun h => by cases h), fun _ => rfl,
      fun S => .value (by rw [Tree.eval]) (S.classOf_string _)⟩
  | .bool value _ => fun _ _ _ _ => by
    refine ⟨.bool, .name (boolText value), rfl, (fun h => by cases h), fun _ => rfl, fun S => ?_⟩
    refine .value (v := S.bool value) ?_ (S.classOf_bool value)
    cases value <;> rfl
  | .binary left op right span? => by
    intro h hreadable c hnil
    simp only [Expr.isOperation, Bool.and_eq_true] at h
    simp only [Expr.isReadable, Bool.and_eq_true] at hreadable
    obtain ⟨o, ho⟩ := Option.isSome_iff_exists.mp hreadable.1.1
    have hrun : checkExpr (.binary left op right span?) c =
        binaryRule op (checkExpr left c).1 (checkExpr right (checkExpr left c).2).1
          (span?.getD .dummy) (checkExpr right (checkExpr left c).2).2 := by
      rfl
    rw [hrun] at hnil ⊢
    -- The findings are kept, so none were made on the way: first on the right, then on the left.
    have hright := ((binaryRule_walks ..).keeps _).findings hnil
    obtain ⟨k, u, hk, hkfloats, hu, huyields⟩ := exprTree_yields right h.2 hreadable.2 _ hright
    obtain ⟨j, t, hj, hjfloats, ht, htyields⟩ :=
      exprTree_yields left h.1 hreadable.1.2 c ((checkExpr_keeps right _).findings hright)
    rw [hj, hk] at hnil ⊢
    obtain ⟨r, hr, htype⟩ := binaryRule_typed? ho hnil
    obtain ⟨hclass, hrfloats, hfaults⟩ := Op.class?_of_typed? hr hjfloats hkfloats
    rw [Expr.floats, Op.eq_div_iff ho]
    refine ⟨r, o.apply t u, htype, hrfloats, fun n => ?_, fun S => ?_⟩
    · rw [exprTree, bind_of_ok (ht n), bind_of_ok (hu n), operationTree, ho]
      rfl
    · refine .apply ((htyields S).mono fun h => ?_) ((huyields S).mono fun h => ?_) hclass hfaults
      · rw [h, Bool.or_true, Bool.true_or]
      · rw [h, Bool.or_true]
  | .unary op operand span? => by
    intro h hreadable c hnil
    rw [Expr.isOperation] at h
    simp only [Expr.isReadable, Bool.and_eq_true, beq_iff_eq] at hreadable
    obtain ⟨rfl, hoperand⟩ := hreadable
    have hrun : checkExpr (.unary "-" operand span?) c =
        unaryRule "-" (checkExpr operand c).1 (span?.getD .dummy) (checkExpr operand c).2 := by
      rfl
    rw [hrun] at hnil ⊢
    obtain ⟨k, t, hk, hfloats, ht, hyields⟩ :=
      exprTree_yields operand h hoperand c (((unaryRule_walks ..).keeps _).findings hnil)
    rw [hk] at hnil ⊢
    obtain ⟨hreal, htype⟩ := unaryRule_isReal hnil
    refine ⟨k, .neg t, htype, hfloats, fun n => ?_, fun S => ?_⟩
    · rw [exprTree, bind_of_ok (ht n)]
      rfl
    · exact (hyields S).neg (ValueClass.negated?_given hreal _)
  | .name .. | .call .. | .field .. | .propagate .. | .list .. | .matching .. | .stmt _
  | .unknown => fun h => by cases h

/-- **Operations evaluate as they are typed.**  Let an expression be made of finite numbers, texts
without line breaks and truth values by signs, arithmetic and comparisons, and let the check accept
it.  Then its type goes with a class.  The text that is emitted is read as a tree, and whatever
values and operations there are that keep to the rules for classes, the tree has a value of this
class, unless arithmetic fails: it divides by zero, or a number is too large for a float and floats
take part.  There is one exception: what has the type `Int` and a division in it is a float. -/
theorem operations_evaluate {c : Checker} {e : Expr} (hoperation : e.isOperation = true)
    (hreadable : e.isReadable = true) (haccepted : c.accepts e = true) :
    ∃ (k : ValueClass) (code : String) (t : Tree), c.typeOf e = k.type ∧
      (∀ n, emitExpr e n = (.ok code, n)) ∧ read code = some t ∧
      ∀ S : Semantics,
        (∃ v, t.eval S = .ok v ∧
          S.classOf v = if k = .int ∧ e.floats = true then .float else k) ∨
        t.eval S = .error .zeroDivision ∨
        e.floats = true ∧ t.eval S = .error .overflow := by
  obtain ⟨k, t, htype, -, ht, hyields⟩ := exprTree_yields e hoperation hreadable c.cleared
    (Checker.accepts_eq_true_iff.mp haccepted)
  obtain ⟨code, hcode⟩ := emitExpr_operation e hoperation
  obtain ⟨u, hu, hread⟩ :=
    emitExpr_reads e hreadable (e.isGrouped_of_isOperation hoperation) .id _ _ _ (hcode 0)
  obtain rfl : t = u := by
    rw [ht] at hu
    cases hu
    rfl
  refine ⟨k, code, t, htype, hcode, hread.read_eq, fun S => ?_⟩
  cases hyields S with
  | value heval hclass => exact .inl ⟨_, heval, hclass⟩
  | fails heval harises =>
    rcases harises with rfl | ⟨hfloats, rfl⟩
    · exact .inr (.inl heval)
    · exact .inr (.inr ⟨hfloats, heval⟩)

/-- A sum of integers that is compared with a float. -/
theorem operations_evaluate_comparison :
    let e := Expr.binary (.binary (.int 1 none) "+" (.int (-2) none) none) "<="
      (.float (.ofDecimal false 25 (-1)) none) none
    emitExpr e 0 = (.ok "((1 + -2) <= 2.5)", 0) ∧
      ∃ t, read "((1 + -2) <= 2.5)" = some t ∧
        ∀ S : Semantics, (∃ v, t.eval S = .ok v ∧ S.classOf v = .bool) ∨
          t.eval S = .error .zeroDivision ∨ t.eval S = .error .overflow := by
  intro e
  obtain ⟨k, code, t, htype, hcode, hread, heval⟩ := operations_evaluate (c := .new) (e := e)
    (by decide +kernel) (by decide +kernel) (by decide +kernel)
  obtain rfl : k = .bool := by
    cases k with
    | bool => rfl
    | _ => exact absurd htype (by decide +kernel)
  have htext : emitExpr e 0 = (.ok "((1 + -2) <= 2.5)", 0) := by rfl
  cases (hcode 0).symm.trans htext
  exact ⟨htext, t, hread, fun S => (heval S).imp_right (.imp_right And.right)⟩

/-- A quotient of integers has the type `Int`, and its value is a float. -/
theorem quotient_evaluates_to_float :
    let half := Expr.binary (.int 1 none) "/" (.int 2 none) none
    let t := Tree.binary .div (.number "1") (.number "2")
    (compile true "let x = 1 / 2").toOption = some "x = (1 / 2)" ∧
      Checker.new.accepts half = true ∧ Checker.new.typeOf half = .int ∧
      emitExpr half 0 = (.ok "(1 / 2)", 0) ∧ read "(1 / 2)" = some t ∧
      t.eval .classes = .ok ValueClass.float ∧
      ∀ (S : Semantics) (v : S.Value), t.eval S = .ok v → S.classOf v = .float := by
  refine ⟨?_, by decide +kernel, by decide +kernel, by rfl, by rfl, by rfl, fun S v hv => ?_⟩
  · rw [compile_of_toList String.toList_ofList]
    decide +kernel
  · have hone : S.classOf (S.number "1") = .int := by rw [S.classOf_number]; rfl
    have htwo : S.classOf (S.number "2") = .int := by rw [S.classOf_number]; rfl
    have hrule : Op.div.class? (S.classOf (S.number "1")) (S.classOf (S.number "2")) =
        some .float := by
      rw [hone, htwo]
      rfl
    rcases S.apply_class hrule with ⟨w, hw, hclass⟩ | ⟨fault, -, hw⟩
    · cases hw.symm.trans hv
      exact hclass
    · cases hw.symm.trans hv

end Owl
