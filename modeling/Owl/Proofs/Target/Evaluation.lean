/-
Values of the target and their classes.

An operator takes values of some classes and gives a value of a class that depends
on these alone, unless a division by zero or a number that is too large for a float
keeps it from giving one.  This is all that is taken for granted here about how
expressions are evaluated.

* `Tree.eval` — the value of a tree that is made of literals and operators;
* `Tree.Yields.apply` — how an operator goes with this.
-/
import Owl.Proofs.Target.Phrases

namespace Owl.Target

/-! ### Classes -/

/-- The classes of values that literals have. -/
inductive ValueClass
  | int
  | float
  | str
  | bool
deriving DecidableEq, Repr

/-- Whether values of a class take part in arithmetic. -/
def ValueClass.isNumeric : ValueClass → Bool
  | .str => false
  | .int | .float | .bool => true

/-- The class of sums, differences, products and remainders of numbers. -/
def ValueClass.join (a b : ValueClass) : ValueClass :=
  if a = .float ∨ b = .float then .float else .int

/-- The class of what an operator makes of values of two classes.  There is none where it has no
rule for them, and neither is there for repeated and formatted texts. -/
def Op.class? : Op → ValueClass → ValueClass → Option ValueClass
  | .eq, _, _ | .ne, _, _ | .is, _, _ | .isNot, _, _ => some .bool
  | .lt, a, b | .gt, a, b | .le, a, b | .ge, a, b =>
    if a.isNumeric = b.isNumeric then some .bool else none
  | .add, .str, .str => some .str
  | .div, a, b => if a.isNumeric && b.isNumeric then some .float else none
  | .add, a, b | .sub, a, b | .mul, a, b | .mod, a, b =>
    if a.isNumeric && b.isNumeric then some (a.join b) else none

def ValueClass.negated? : ValueClass → Option ValueClass
  | .float => some .float
  | .int | .bool => some .int
  | .str => none

/-- Why there is no value. -/
inductive Fault
  | zeroDivision
  /-- A number is too large for a float. -/
  | overflow
  /-- Operands of classes that an operator has no rule for. -/
  | mismatch
  /-- A name that stands for nothing, or an expression that is no operation. -/
  | undefined
deriving DecidableEq, Repr

/-- How an operator can fail on values of classes that it has a rule for. -/
def Op.faults : Op → ValueClass → ValueClass → List Fault
  | .div, _, _ => [.zeroDivision, .overflow]
  | .mod, a, b => .zeroDivision :: if a.join b = .float then [.overflow] else []
  | .add, a, b | .sub, a, b | .mul, a, b => if a.join b = .float then [.overflow] else []
  | _, _, _ => []

/-! ### Evaluation -/

/-- Values, and operations on them that keep to the rules for classes. -/
structure Semantics where
  Value : Type
  classOf : Value → ValueClass
  isTrue : Value → Bool
  /-- The values of literals, as they are written. -/
  number : String → Value
  string : String → Value
  bool : Bool → Value
  apply : Op → Value → Value → Except Fault Value
  negate : Value → Except Fault Value
  classOf_number (s : String) :
    classOf (number s) = if s.toList.all Char.isDigit then .int else .float
  classOf_string (s : String) : classOf (string s) = .str
  classOf_bool (b : Bool) : classOf (bool b) = .bool
  apply_class {o : Op} {a b : Value} {k : ValueClass}
    (h : o.class? (classOf a) (classOf b) = some k) :
    (∃ v, apply o a b = .ok v ∧ classOf v = k) ∨
      ∃ fault ∈ o.faults (classOf a) (classOf b), apply o a b = .error fault
  negate_class {a : Value} {k : ValueClass} (h : (classOf a).negated? = some k) :
    ∃ v, negate a = .ok v ∧ classOf v = k

/-- A value is no more than its class, and no operation fails that has a rule. -/
def Semantics.classes : Semantics where
  Value := ValueClass
  classOf := id
  isTrue _ := true
  number s := if s.toList.all Char.isDigit then .int else .float
  string _ := .str
  bool _ := .bool
  apply o a b := (o.class? a b).elim (.error .mismatch) .ok
  negate a := a.negated?.elim (.error .mismatch) .ok
  classOf_number _ := rfl
  classOf_string _ := rfl
  classOf_bool _ := rfl
  apply_class {o a b k} h := by
    rw [id, id] at h
    rw [h]
    exact .inl ⟨k, rfl, rfl⟩
  negate_class {a k} h := by
    rw [id] at h
    rw [h]
    exact ⟨k, rfl, rfl⟩

namespace Tree

variable (S : Semantics)

mutual

def eval : Tree → Except Fault S.Value
  | .number s => .ok (S.number s)
  | .string s => .ok (S.string s)
  | .name s =>
    if s = "True" then .ok (S.bool true) else
      if s = "False" then .ok (S.bool false) else .error .undefined
  | .neg operand => do S.negate (← eval operand)
  | .binary o left right => do
    let a ← eval left
    let b ← eval right
    S.apply o a b
  | .compare first rest => do evalChain (← eval first) rest
  | _ => .error .undefined

/-- The value of the comparisons behind a value.  A comparison that does not hold ends them. -/
def evalChain (a : S.Value) : List (Op × Tree) → Except Fault S.Value
  | [] => .ok a
  | (o, t) :: rest => do
    let b ← eval t
    let v ← S.apply o a b
    if rest.isEmpty || !S.isTrue v then return v else evalChain b rest

end

/-- An operation evaluates its operands, whether it is a comparison or not. -/
theorem eval_apply (o : Op) (left right : Tree) :
    (o.apply left right).eval S =
      left.eval S >>= fun a => right.eval S >>= fun b => S.apply o a b := by
  rw [Op.apply]
  split
  · simp [eval, evalChain]
  · rw [eval]

/-- The ways in which arithmetic fails, the second one where floats take part only. -/
def Arises (floats : Bool) (fault : Fault) : Prop :=
  fault = .zeroDivision ∨ floats = true ∧ fault = .overflow

/-- A tree has a value of the class, or arithmetic fails. -/
inductive Yields (t : Tree) (k : ValueClass) (floats : Bool) : Prop
  | value {v : S.Value} (heval : t.eval S = .ok v) (hclass : S.classOf v = k)
  | fails {fault : Fault} (heval : t.eval S = .error fault) (harises : Arises floats fault)

namespace Yields

variable {S} {t left right : Tree} {j k r : ValueClass} {floats floats' : Bool}

theorem neg (h : t.Yields S k floats) (hclass : k.negated? = some r) :
    (Tree.neg t).Yields S r floats := by
  cases h with
  | value heval hk =>
    obtain ⟨v, hv, hr⟩ := S.negate_class (hk ▸ hclass)
    refine .value (v := v) ?_ hr
    rw [eval, heval]
    exact hv
  | fails heval harises =>
    refine .fails ?_ harises
    rw [eval, heval]
    rfl

/-- What an operation yields, if it has a rule for what its operands yield. -/
theorem apply {o : Op} (hleft : left.Yields S j floats) (hright : right.Yields S k floats)
    (hclass : o.class? j k = some r) (hfaults : ∀ fault ∈ o.faults j k, Arises floats fault) :
    (o.apply left right).Yields S r floats := by
  have heval := eval_apply S o left right
  cases hleft with
  | fails hl harises =>
    rw [hl] at heval
    exact .fails heval harises
  | value hl hj =>
    rw [hl] at heval
    cases hright with
    | fails hr harises =>
      rw [hr] at heval
      exact .fails heval harises
    | value hr hk =>
      rw [hr] at heval
      subst hj hk
      rcases S.apply_class hclass with ⟨v, hv, hv'⟩ | ⟨fault, hfault, hv⟩
      · exact .value (heval.trans hv) hv'
      · exact .fails (heval.trans hv) (hfaults fault hfault)

theorem mono (h : t.Yields S k floats) (hfloats : floats = true → floats' = true) :
    t.Yields S k floats' := by
  cases h with
  | value heval hclass => exact .value heval hclass
  | fails heval harises => exact .fails heval (harises.imp_right fun h => ⟨hfloats h.1, h.2⟩)

end Yields

end Tree

end Owl.Target
