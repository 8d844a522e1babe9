/-
Compatible types are consistent types.

`Ty.Consistent` is the consistency of gradual typing, with `Any` for the type
that fits everything: the least relation that relates `Any` to every type and is
closed under the constructors of types.  `Ty.compatible` is this relation and,
besides, relates `Unknown` by itself to everything (`Ty.compatible_eq_true_iff`).

Consistency is reflexive and symmetric and is kept when a type is loosened, that
is, when parts of it are replaced by `Any` (`Ty.Consistent.loosen`).  It is not
transitive, `Any` being between any two types; it is so through a type without
`Any` (`Ty.Consistent.through`).
-/
import Owl.Ty

namespace Owl.Ty

/-- Types that differ at most where one of them has `Any`. -/
inductive Consistent : Ty → Ty → Prop
  | anyLeft (t : Ty) : Consistent any t
  | anyRight (t : Ty) : Consistent t any
  | plain (name : String) : Consistent (.plain name) (.plain name)
  | option {a b : Ty} : Consistent a b → Consistent (.option a) (.option b)
  | list {a b : Ty} : Consistent a b → Consistent (.list a) (.list b)
  | result {a b e f : Ty} :
    Consistent a b → Consistent e f → Consistent (.result a e) (.result b f)

/-- The second type is the first with some of its parts, or all of it, replaced by `Any`. -/
inductive Loosened : Ty → Ty → Prop
  | whole (t : Ty) : Loosened t any
  | plain (name : String) : Loosened (.plain name) (.plain name)
  | option {a a' : Ty} : Loosened a a' → Loosened (.option a) (.option a')
  | list {a a' : Ty} : Loosened a a' → Loosened (.list a) (.list a')
  | result {a a' e e' : Ty} :
    Loosened a a' → Loosened e e' → Loosened (.result a e) (.result a' e')

/-- Whether `Any` occurs nowhere in a type. -/
def isExact : Ty → Bool
  | .plain name => name != "Any"
  | .option inner => inner.isExact
  | .list element => element.isExact
  | .result ok err => ok.isExact && err.isExact

/-! ### Consistency -/

/-- Types that agree up to `Any` inside are consistent. -/
theorem Consistent.of_agree {a b : Ty} (h : agree a b = true) : Consistent a b := by
  -- A part is `Any` on one side or agrees; the second is the induction hypothesis.
  have part {x y : Ty} (ih : agree x y = true → Consistent x y)
      (h : (x == any || y == any || agree x y) = true) : Consistent x y := by
    obtain (hx | hy) | hxy : (x = any ∨ y = any) ∨ agree x y = true := by simpa using h
    · exact hx ▸ .anyLeft y
    · exact hy ▸ .anyRight x
    · exact ih hxy
  fun_induction agree a b with
  | case1 a b =>
    obtain rfl : a = b := by simpa using h
    exact .plain a
  | case2 a b ih => exact .option (part ih h)
  | case3 a b ih => exact .list (part ih h)
  | case4 a e b f ihok iherr =>
    obtain ⟨hok, herr⟩ := Bool.and_eq_true_iff.1 h
    exact .result (part ihok hok) (part iherr herr)
  | case5 => simp at h

/-- What `agree` and `compatible` ask of two types, `Unknown` apart, is that they are consistent. -/
theorem consistent_iff {a b : Ty} :
    Consistent a b ↔ (a == any || b == any || agree a b) = true := by
  constructor
  · intro h
    induction h with
    | anyLeft t => simp
    | anyRight t => simp
    | plain name => simp [agree]
    | option _ ih => rw [agree, ih, Bool.or_true]
    | list _ ih => rw [agree, ih, Bool.or_true]
    | result _ _ ihok iherr => rw [agree, ihok, iherr, Bool.and_self, Bool.or_true]
  · intro h
    obtain (ha | hb) | hab : (a = any ∨ b = any) ∨ agree a b = true := by simpa using h
    · exact ha ▸ .anyLeft b
    · exact hb ▸ .anyRight a
    · exact .of_agree hab

theorem Consistent.refl (a : Ty) : Consistent a a := by
  induction a with
  | plain name => exact .plain name
  | option _ ih => exact .option ih
  | list _ ih => exact .list ih
  | result _ _ ihok iherr => exact .result ihok iherr

theorem Consistent.symm {a b : Ty} (h : Consistent a b) : Consistent b a := by
  induction h with
  | anyLeft t => exact .anyRight t
  | anyRight t => exact .anyLeft t
  | plain name => exact .plain name
  | option _ ih => exact .option ih
  | list _ ih => exact .list ih
  | result _ _ ihok iherr => exact .result ihok iherr

theorem Loosened.eq_any {t : Ty} (h : Loosened any t) : t = any := by
  cases h with
  | whole => rfl
  | plain => rfl

/-- Loosening both of two consistent types leaves them consistent. -/
theorem Consistent.loosen {a b a' b' : Ty} (h : Consistent a b) (ha : Loosened a a')
    (hb : Loosened b b') : Consistent a' b' := by
  induction h generalizing a' b' with
  | anyLeft t => exact ha.eq_any ▸ .anyLeft b'
  | anyRight t => exact hb.eq_any ▸ .anyRight a'
  | plain name =>
    cases ha with
    | whole => exact .anyLeft b'
    | plain =>
      cases hb with
      | whole => exact .anyRight _
      | plain => exact .plain name
  | option _ ih =>
    cases ha with
    | whole => exact .anyLeft b'
    | option ha =>
      cases hb with
      | whole => exact .anyRight _
      | option hb => exact .option (ih ha hb)
  | list _ ih =>
    cases ha with
    | whole => exact .anyLeft b'
    | list ha =>
      cases hb with
      | whole => exact .anyRight _
      | list hb => exact .list (ih ha hb)
  | result _ _ ihok iherr =>
    cases ha with
    | whole => exact .anyLeft b'
    | result haok haerr =>
      cases hb with
      | whole => exact .anyRight _
      | result hbok hberr => exact .result (ihok haok hbok) (iherr haerr hberr)

/-- Consistency goes through a type without `Any`. -/
theorem Consistent.through {t a b : Ty} (ht : t.isExact = true) (ha : Consistent t a)
    (hb : Consistent t b) : Consistent a b := by
  induction ha generalizing b with
  | anyLeft a => simp [isExact, any] at ht
  | anyRight t => exact .anyLeft b
  | plain name => exact hb
  | option _ ih =>
    cases hb with
    | anyRight => exact .anyRight _
    | option hb => exact .option (ih ht hb)
  | list _ ih =>
    cases hb with
    | anyRight => exact .anyRight _
    | list hb => exact .list (ih ht hb)
  | result _ _ ihok iherr =>
    obtain ⟨htok, hterr⟩ := Bool.and_eq_true_iff.1 ht
    cases hb with
    | anyRight => exact .anyRight _
    | result hbok hberr => exact .result (ihok htok hbok) (iherr hterr hberr)

/-! ### Compatibility -/

/-- Compatible types are those that are consistent, or of which one is `Unknown`. -/
theorem compatible_eq_true_iff {a b : Ty} :
    compatible a b = true ↔ a = unknown ∨ b = unknown ∨ Consistent a b := by
  rw [compatible, consistent_iff]
  simp only [Bool.or_eq_true, beq_iff_eq]
  grind

theorem compatible_self (a : Ty) : compatible a a = true :=
  compatible_eq_true_iff.2 (.inr (.inr (.refl a)))

theorem compatible_comm (a b : Ty) : compatible a b = compatible b a := by
  have swap {x y : Ty} (h : compatible x y = true) : compatible y x = true := by
    obtain hx | hy | hxy := compatible_eq_true_iff.1 h
    · exact compatible_eq_true_iff.2 (.inr (.inl hx))
    · exact compatible_eq_true_iff.2 (.inl hy)
    · exact compatible_eq_true_iff.2 (.inr (.inr hxy.symm))
  exact Bool.eq_iff_iff.2 ⟨swap, swap⟩

/-- `Unknown` is loosened to itself or to `Any`, and both are compatible with everything. -/
theorem Loosened.compatible_of_unknown {t : Ty} (h : Loosened unknown t) (u : Ty) :
    compatible t u = true := by
  cases h with
  | whole => exact compatible_eq_true_iff.2 (.inr (.inr (.anyLeft u)))
  | plain => exact compatible_eq_true_iff.2 (.inl rfl)

/-- Loosening both of two compatible types leaves them compatible. -/
theorem compatible_loosen {a b a' b' : Ty} (h : compatible a b = true) (ha : Loosened a a')
    (hb : Loosened b b') : compatible a' b' = true := by
  obtain rfl | rfl | hab := compatible_eq_true_iff.1 h
  · exact ha.compatible_of_unknown b'
  · rw [compatible_comm]
    exact hb.compatible_of_unknown a'
  · exact compatible_eq_true_iff.2 (.inr (.inr (hab.loosen ha hb)))

/-- Compatibility goes through a type without `Any` that is not `Unknown`. -/
theorem compatible_through {t a b : Ty} (ht : t.isExact = true) (hknown : t ≠ unknown)
    (ha : compatible t a = true) (hb : compatible t b = true) : compatible a b = true := by
  rw [compatible_eq_true_iff] at ha hb ⊢
  obtain ha | ha | ha := ha
  · exact absurd ha hknown
  · exact .inl ha
  · obtain hb | hb | hb := hb
    · exact absurd hb hknown
    · exact .inr (.inl hb)
    · exact .inr (.inr (ha.through ht hb))

/-- Compatibility is consistency, with `Unknown` by itself compatible with everything: it is
reflexive and symmetric, and loosening a type never makes it less compatible. -/
theorem compatible_iff_consistent (a b : Ty) :
    (compatible a b = true ↔ a = unknown ∨ b = unknown ∨ Consistent a b) ∧
      compatible a a = true ∧ compatible a b = compatible b a ∧
      ∀ a' b' : Ty, Loosened a a' → Loosened b b' → compatible a b = true →
        compatible a' b' = true :=
  ⟨compatible_eq_true_iff, compatible_self a, compatible_comm a b,
    fun _ _ ha hb h => compatible_loosen h ha hb⟩

/-- `Result[List[Int], String]` stays compatible with `Result[List[Any], Any]` when the whole list
of the first is forgotten. -/
theorem compatible_result_forgetting_list :
    compatible (.result (.list int) string) (.result (.list any) any) = true ∧
      Loosened (.result (.list int) string) (.result any string) ∧
      Loosened (.result (.list any) any) (.result (.list any) any) ∧
      compatible (.result any string) (.result (.list any) any) = true := by
  have hcompatible : compatible (.result (.list int) string) (.result (.list any) any) = true := by
    decide
  have hfirst : Loosened (.result (.list int) string) (.result any string) :=
    .result (.whole _) (.plain _)
  have hsecond : Loosened (.result (.list any) any) (.result (.list any) any) :=
    .result (.list (.whole _)) (.whole _)
  exact ⟨hcompatible, hfirst, hsecond,
    (compatible_iff_consistent _ _).2.2.2 _ _ hfirst hsecond hcompatible⟩

end Owl.Ty
