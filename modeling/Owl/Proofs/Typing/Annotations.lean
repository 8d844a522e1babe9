/-
What a written type stands for.

A type is read twice: the check walks down the tree of an annotation, and
`Ty.ofText` reads a text.  `TypeExpr.Means` says what the walk gives, whatever has
been reported by then (`readType_means`): the type that is written, with `Unknown`
in place of every part that is not well formed.  So `Any` is not among what it
gives, `Unknown` is exactly if some part is not well formed, and a well-formed
annotation is spelled as `Ty.ofText` expects the same type (`TypeExpr.Means.spelled`).
-/
import Owl.Check.Rules
import Owl.Proofs.Typing.Lossless

namespace Owl

def Ty.mentions (name : String) : Ty → Bool
  | plain other => other == name
  | option inner => inner.mentions name
  | list element => element.mentions name
  | result ok err => ok.mentions name || err.mentions name

namespace TypeExpr

open CheckM

/-- The names of the types without parameters, each with the shorter one that stands for it. -/
def primitiveNames : List String :=
  ["Int", "int", "Float", "float", "String", "str", "Bool", "bool", "Void", "void"]

/-- Whether every part of a written type is a name of a type with as many parameters as it takes. -/
def wellFormed : TypeExpr → Bool
  | mk name [] _ => primitiveNames.contains name
  | mk name [p] _ => (name == "Option" || name == "List") && p.wellFormed
  | mk name [p, q] _ => name == "Result" && (p.wellFormed && q.wellFormed)
  | mk _ _ _ => false

/-- The type that a written type stands for. -/
inductive Means : TypeExpr → Ty → Prop
  | primitive {name : String} {t : Ty} (span? : Option Span) :
    Ty.primitive? name = some t → Means (mk name [] span?) t
  | option {p : TypeExpr} {t : Ty} (span? : Option Span) :
    Means p t → Means (mk "Option" [p] span?) (.option t)
  | list {p : TypeExpr} {t : Ty} (span? : Option Span) :
    Means p t → Means (mk "List" [p] span?) (.list t)
  | result {p q : TypeExpr} {t e : Ty} (span? : Option Span) :
    Means p t → Means q e → Means (mk "Result" [p, q] span?) (.result t e)
  | malformed {written : TypeExpr} : written.wellFormed = false → Means written .unknown

theorem mem_primitiveNames {name : String} :
    name ∈ primitiveNames ↔ (Ty.primitive? name).isSome = true := by
  constructor
  · have hall : ∀ name ∈ primitiveNames, (Ty.primitive? name).isSome = true := by decide
    exact hall name
  · intro h
    rw [Ty.primitive?.eq_def] at h
    split at h
    all_goals first | decide | cases h

/-! ### Reading the tree -/

/-- A name with parameters that it does not take is not a type, nor is one that is not known. -/
theorem readType_unknown (name : String) (params : List TypeExpr)
    (hprimitive : params = [] → Ty.primitive? name = none)
    (harity : Ty.arity? name ≠ some params.length) (span? : Option Span) (c : Checker) :
    (readType (mk name params span?) c).1 = .unknown := by
  rw [readType]
  split
  · rfl
  cases hname : Ty.primitive? name with
  | some t =>
    have hparams : ¬ params.isEmpty = true := fun hempty => by
      cases (hprimitive (List.isEmpty_iff.1 hempty)).symm.trans hname
    simp only [if_neg hparams]
    rfl
  | none =>
    cases hcount : Ty.arity? name with
    | none => rfl
    | some arity =>
      have hlength : ¬ (params.length == arity) = true := fun hlength =>
        harity (hcount.trans (congrArg some (eq_of_beq hlength).symm))
      simp only [if_neg hlength]
      rfl

theorem readType_means : ∀ (written : TypeExpr) (c : Checker), written.Means (readType written c).1
  | mk name [] span?, c => by
    cases hprimitive : Ty.primitive? name with
    | some t =>
      have hany : name ≠ "Any" := by
        rintro rfl
        cases hprimitive
      have hread : (readType (mk name [] span?) c).1 = t := by
        rw [readType, if_neg (by simpa using hany)]
        simp only [hprimitive]
        rfl
      rw [hread]
      exact .primitive span? hprimitive
    | none =>
      have harity : Ty.arity? name ≠ some 0 := by
        rw [Ty.arity?.eq_def]
        split
        all_goals simp
      rw [readType_unknown name [] (fun _ => hprimitive) harity]
      refine .malformed ?_
      rw [wellFormed, ← Bool.not_eq_true, List.contains_iff_mem, mem_primitiveNames, hprimitive]
      decide
  | mk name [p] span?, c => by
    by_cases hoption : name = "Option"
    · subst hoption
      exact .option span? (readType_means p c)
    by_cases hlist : name = "List"
    · subst hlist
      exact .list span? (readType_means p c)
    rw [readType_unknown name [p] (by simp) (by rw [Ty.arity?.eq_def]; split <;> simp_all)]
    exact .malformed (by simp [wellFormed, hoption, hlist])
  | mk name [p, q] span?, c => by
    by_cases hresult : name = "Result"
    · subst hresult
      exact .result span? (readType_means p c) (readType_means q (readType p c).2)
    rw [readType_unknown name [p, q] (by simp) (by rw [Ty.arity?.eq_def]; split <;> simp_all)]
    exact .malformed (by simp [wellFormed, hresult])
  | mk name (p :: q :: r :: rest) span?, c => by
    rw [readType_unknown name _ (by simp) (by rw [Ty.arity?.eq_def]; split <;> simp)]
    exact .malformed (by simp [wellFormed])

namespace Means

variable {written : TypeExpr} {t : Ty}

theorem no_any (h : written.Means t) : t.mentions "Any" = false := by
  induction h with
  | primitive _ hprimitive =>
    rw [Ty.primitive?.eq_def] at hprimitive
    split at hprimitive
    all_goals cases hprimitive <;> rfl
  | option _ _ ih => exact ih
  | list _ _ ih => exact ih
  | result _ _ _ ihok iherr => exact Bool.or_eq_false_iff.2 ⟨ihok, iherr⟩
  | malformed => rfl

theorem no_unknown_iff (h : written.Means t) :
    t.mentions "Unknown" = false ↔ written.wellFormed = true := by
  induction h with
  | primitive _ hprimitive =>
    have hwritten := mem_primitiveNames.2 (Option.isSome_iff_exists.2 ⟨_, hprimitive⟩)
    rw [wellFormed, List.contains_iff_mem, iff_true_right hwritten]
    rw [Ty.primitive?.eq_def] at hprimitive
    split at hprimitive
    all_goals cases hprimitive <;> rfl
  | option _ _ ih => simpa [wellFormed, Ty.mentions] using ih
  | list _ _ ih => simpa [wellFormed, Ty.mentions] using ih
  | result _ _ _ ihok iherr => simp [wellFormed, Ty.mentions, ihok, iherr]
  | malformed hwritten => simp [hwritten, Ty.mentions, Ty.unknown]

theorem spelled (h : written.Means t) (hwritten : written.wellFormed = true) :
    Ty.Spelled written.text.toList t := by
  induction h with
  | @primitive name t _ hprimitive =>
    have hnames : ∀ s ∈ primitiveNames, (',' ∉ s.toList ∧ '[' ∉ s.toList ∧ ']' ∉ s.toList) ∧
        String.ofList (Text.trim s.toList) = s := by decide
    obtain ⟨hplain, htrim⟩ := hnames name
      (mem_primitiveNames.2 (Option.isSome_iff_exists.2 ⟨t, hprimitive⟩))
    exact .name hplain (.primitive (htrim.symm ▸ hprimitive))
  | option _ _ ih =>
    have hp := ih (by simpa [wellFormed] using hwritten)
    simpa [text, restText] using hp.option
  | list _ _ ih =>
    have hp := ih (by simpa [wellFormed] using hwritten)
    simpa [text, restText] using hp.list
  | result _ _ _ ihok iherr =>
    have hboth := Bool.and_eq_true_iff.1 (Bool.and_eq_true_iff.1 hwritten).2
    simpa [text, restText] using (ihok hboth.1).result (iherr hboth.2)
  | malformed hnot => cases hnot.symm.trans hwritten

end Means

end TypeExpr

/-- Reading an annotation gives a type without `Any` in it.  It has no `Unknown` in it exactly if
the annotation is well formed, and then it is the type that is read from the annotation's text. -/
theorem readType_eq_ofText (written : TypeExpr) (c : Checker) :
    (CheckM.readType written c).1.mentions "Any" = false ∧
      ((CheckM.readType written c).1.mentions "Unknown" = false ↔ written.wellFormed = true) ∧
      (written.wellFormed = true → (CheckM.readType written c).1 = Ty.ofText written.text) := by
  have hmeans := TypeExpr.readType_means written c
  exact ⟨hmeans.no_any, hmeans.no_unknown_iff, fun h => Ty.parses_iff.1 (hmeans.spelled h).parses⟩

/-- The shorter names in an annotation with a result inside of a result. -/
theorem readType_eq_ofText_shorter_names :
    let inner := TypeExpr.mk "Result" [.mk "int" [] none, .mk "List" [.mk "str" [] none] none] none
    let written := TypeExpr.mk "Result" [inner, .mk "void" [] none] none
    written.wellFormed = true ∧
      Ty.ofText written.text = .result (.result .int (.list .string)) .void := by
  intro inner written
  have hwritten : written.wellFormed = true := by decide
  exact ⟨hwritten, ((readType_eq_ofText written default).2.2 hwritten).symm⟩

end Owl
