/-
How numbers and calls of built-in functions are written.

* `spelled_int`, `Binary64.spelled_text` — a number is written as a numeral, as the
  name of a number that has none, or as one of these behind a minus sign.
-/
import Owl.Code.Emit

namespace Owl

open EmitM

/-! ### Numerals -/

/-- Digits, and at least one. -/
def IsDigits (cs : List Char) : Prop := cs ≠ [] ∧ ∀ c ∈ cs, c.isDigit = true

/-- A sign and the digits of an exponent. -/
inductive IsExponent : List Char → Prop
  | plus {es : List Char} (hes : IsDigits es) : IsExponent ('+' :: es)
  | minus {es : List Char} (hes : IsDigits es) : IsExponent ('-' :: es)

/-- The numerals that numbers without a sign are written with. -/
inductive IsNumeral : List Char → Prop
  | whole {ds : List Char} (hds : IsDigits ds) : IsNumeral ds
  | point {ds fs : List Char} (hds : IsDigits ds) (hfs : IsDigits fs) : IsNumeral (ds ++ '.' :: fs)
  | exponent {ds es : List Char} (hds : IsDigits ds) (hes : IsExponent es) :
    IsNumeral (ds ++ 'e' :: es)
  | both {ds fs es : List Char} (hds : IsDigits ds) (hfs : IsDigits fs) (hes : IsExponent es) :
    IsNumeral (ds ++ '.' :: (fs ++ 'e' :: es))

/-- A number as it is written: a numeral, or the name of a number that has none. -/
inductive IsUnsigned : String → Prop
  | numeral {cs : List Char} (hcs : IsNumeral cs) : IsUnsigned (String.ofList cs)
  | nan : IsUnsigned "nan"
  | inf : IsUnsigned "inf"

/-- A number as it is written, perhaps behind a sign. -/
inductive IsSigned : String → Prop
  | plain {s : String} (hs : IsUnsigned s) : IsSigned s
  | negated {s : String} (hs : IsUnsigned s) : IsSigned ("-" ++ s)

theorem isDigits_toDigits (n : Nat) : IsDigits (Nat.toDigits 10 n) :=
  ⟨Nat.toDigits_ne_nil, fun _ hc => Nat.isDigit_of_mem_toDigits (by decide) (by decide) hc⟩

theorem isDigits_zero : IsDigits ['0'] := ⟨by simp, by simp⟩

theorem IsDigits.append {ds : List Char} (h : IsDigits ds) {es : List Char}
    (hes : ∀ c ∈ es, c.isDigit = true) : IsDigits (ds ++ es) := by
  refine ⟨fun hnil => h.1 (List.append_eq_nil_iff.mp hnil).1, fun c hc => ?_⟩
  rcases List.mem_append.mp hc with hc | hc
  · exact h.2 c hc
  · exact hes c hc

theorem isDigit_of_mem_zeros {n : Nat} {c : Char} (h : c ∈ List.replicate n '0') :
    c.isDigit = true := by
  rw [List.eq_of_mem_replicate h]
  decide

/-- A natural number is written in digits. -/
theorem toString_nat (n : Nat) : toString n = String.ofList (Nat.toDigits 10 n) := by
  rw [← String.toList_inj, Nat.toString_eq_repr, Nat.toList_repr, String.toList_ofList]

theorem isUnsigned_nat (n : Nat) : IsUnsigned (toString n) := by
  exact .numeral (.whole (isDigits_toDigits n))

theorem spelled_int (value : Int) : IsSigned (toString value) := by
  cases value with
  | ofNat n => exact .plain (isUnsigned_nat n)
  | negSucc n => exact .negated (isUnsigned_nat (n + 1))

namespace Binary64

theorem isSigned_signed (negative : Bool) {s : String} (h : IsUnsigned s) :
    IsSigned (signed negative s) := by
  cases negative with
  | false => exact .plain h
  | true => exact .negated h

/-- A text is a numeral that is not made of digits only. -/
inductive IsFractional : String → Prop
  | mk {cs : List Char} (hcs : IsNumeral cs) (hmark : ∃ c ∈ cs, c.isDigit = false) :
    IsFractional (String.ofList cs)

theorem isFractional_positional {digits : List Char} (h : IsDigits digits) (place : Int) :
    IsFractional (positional digits place) := by
  rw [positional]
  split
  · have hplaces : IsDigits (List.replicate place.natAbs '0' ++ digits) := by
      refine ⟨fun hnil => h.1 (List.append_eq_nil_iff.mp hnil).2, fun c hc => ?_⟩
      rcases List.mem_append.mp hc with hc | hc
      · exact isDigit_of_mem_zeros hc
      · exact h.2 c hc
    have htext : "0." ++ String.ofList (List.replicate place.natAbs '0' ++ digits) =
        String.ofList (['0'] ++ '.' :: (List.replicate place.natAbs '0' ++ digits)) := by
      simp [← String.toList_inj]
    rw [htext]
    exact ⟨.point isDigits_zero hplaces, '.', by simp, rfl⟩
  · next hplace =>
    dsimp only
    have hwhole : IsDigits (digits.take place.toNat ++
        List.replicate (place.toNat - digits.length) '0') := by
      have hlength : 0 < digits.length := List.length_pos_iff.mpr h.1
      refine IsDigits.append ⟨?_, fun c hc => h.2 c (List.mem_of_mem_take hc)⟩
        fun c hc => isDigit_of_mem_zeros hc
      rw [Ne, ← List.length_eq_zero_iff, List.length_take]
      omega
    have hplaces : IsDigits (if (digits.drop place.toNat).isEmpty then ['0']
        else digits.drop place.toNat) := by
      split
      · exact isDigits_zero
      · next hsome =>
        exact ⟨by simpa using hsome, fun c hc => h.2 c (List.mem_of_mem_drop hc)⟩
    generalize (if (digits.drop place.toNat).isEmpty then ['0'] else digits.drop place.toNat) =
      places at hplaces ⊢
    have htext : ∀ whole : List Char, String.ofList whole ++ "." ++ String.ofList places =
        String.ofList (whole ++ '.' :: places) := by
      intro whole
      simp [← String.toList_inj]
    rw [htext]
    exact ⟨.point hwhole hplaces, '.', by simp, rfl⟩

theorem isFractional_scientific {digits : List Char} (h : IsDigits digits) (exponent : Int) :
    IsFractional (scientific digits exponent) := by
  have hfirst : IsDigits (digits.take 1) := by
    refine ⟨?_, fun c hc => h.2 c (List.mem_of_mem_take hc)⟩
    rw [Ne, List.take_eq_nil_iff]
    simp [h.1]
  have hsize : IsDigits (if (decimalDigits exponent.natAbs).length < 2 then
      '0' :: decimalDigits exponent.natAbs else decimalDigits exponent.natAbs) := by
    have hdigits : IsDigits (decimalDigits exponent.natAbs) := isDigits_toDigits _
    split
    · exact isDigits_zero.append hdigits.2
    · exact hdigits
  rw [scientific]
  generalize (if (decimalDigits exponent.natAbs).length < 2 then
    '0' :: decimalDigits exponent.natAbs else decimalDigits exponent.natAbs) = size at hsize ⊢
  obtain ⟨es, hes, htext⟩ : ∃ es, IsExponent es ∧
      (if exponent < 0 then "-" else "+") ++ String.ofList size = String.ofList es := by
    split
    · exact ⟨'-' :: size, .minus hsize, by simp⟩
    · exact ⟨'+' :: size, .plus hsize, by simp⟩
  rw [String.append_assoc, String.append_assoc, htext]
  split
  · have hwhole : String.ofList (digits.take 1) ++ ("e" ++ String.ofList es) =
        String.ofList (digits.take 1 ++ 'e' :: es) := by
      simp
    rw [hwhole]
    exact ⟨.exponent hfirst hes, 'e', by simp, rfl⟩
  · next hrest =>
    have hplaces : IsDigits (digits.drop 1) :=
      ⟨by simpa using hrest, fun c hc => h.2 c (List.mem_of_mem_drop hc)⟩
    have hpoint : String.ofList (digits.take 1) ++ "." ++ String.ofList (digits.drop 1) ++
        ("e" ++ String.ofList es) =
          String.ofList (digits.take 1 ++ '.' :: (digits.drop 1 ++ 'e' :: es)) := by
      simp [← String.toList_inj]
    rw [hpoint]
    exact ⟨.both hfirst hplaces hes, '.', by simp, rfl⟩

/-- A finite number has a numeral, and one that no integer has. -/
theorem text_finite (negative : Bool) (m : Nat) (e : Int) :
    ∃ s, IsFractional s ∧ (finite negative m e).text = signed negative s := by
  rw [text]
  split
  · have hzero : IsNumeral (['0'] ++ '.' :: ['0']) := .point isDigits_zero isDigits_zero
    exact ⟨_, ⟨hzero, '.', by simp, rfl⟩, rfl⟩
  · dsimp only
    refine ⟨_, ?_, rfl⟩
    split
    · exact isFractional_positional (isDigits_toDigits _) _
    · exact isFractional_scientific (isDigits_toDigits _) _

theorem spelled_text (value : Binary64) : IsSigned value.text := by
  cases value with
  | nan => exact .plain .nan
  | infinite negative => exact isSigned_signed negative .inf
  | finite negative m e =>
    obtain ⟨s, hs, htext⟩ := text_finite negative m e
    rw [htext]
    cases hs with
    | mk hcs => exact isSigned_signed negative (.numeral hcs)

end Binary64

/-! ### Characters of numerals -/

/-- Whether a character can stand in a number as it is written. -/
def isNumeralChar (c : Char) : Bool := c.isDigit || "+-.einfa".toList.contains c

theorem IsDigits.chars {ds : List Char} (h : IsDigits ds) : ∀ c ∈ ds, isNumeralChar c = true := by
  intro c hc
  rw [isNumeralChar, h.2 c hc, Bool.true_or]

theorem IsExponent.chars {es : List Char} (h : IsExponent es) :
    ∀ c ∈ es, isNumeralChar c = true := by
  cases h with
  | plus hes | minus hes => exact List.forall_mem_cons.mpr ⟨by decide, hes.chars⟩

theorem IsNumeral.chars {cs : List Char} (h : IsNumeral cs) : ∀ c ∈ cs, isNumeralChar c = true := by
  cases h with
  | whole hds => exact hds.chars
  | point hds hrest | exponent hds hrest =>
    rw [List.forall_mem_append, List.forall_mem_cons]
    exact ⟨hds.chars, by decide, hrest.chars⟩
  | both hds hfs hes =>
    rw [List.forall_mem_append, List.forall_mem_cons, List.forall_mem_append, List.forall_mem_cons]
    exact ⟨hds.chars, by decide, hfs.chars, by decide, hes.chars⟩

theorem IsNumeral.ne_nil {cs : List Char} (h : IsNumeral cs) : cs ≠ [] := by
  cases h with
  | whole hds => exact hds.1
  | point | exponent | both => simp

theorem IsNumeral.starts {cs : List Char} (h : IsNumeral cs) :
    ∃ (c : Char) (rest : List Char), cs = c :: rest ∧ c.isDigit = true := by
  have hfirst : ∀ {ds : List Char}, IsDigits ds → ∀ more : List Char,
      ∃ (c : Char) (rest : List Char), ds ++ more = c :: rest ∧ c.isDigit = true := by
    intro ds hds more
    cases ds with
    | nil => exact absurd rfl hds.1
    | cons c ds => exact ⟨c, ds ++ more, rfl, hds.2 c List.mem_cons_self⟩
  cases h with
  | whole hds => simpa using hfirst hds []
  | point hds hfs => exact hfirst hds _
  | exponent hds hes => exact hfirst hds _
  | both hds hfs hes => exact hfirst hds _

theorem IsUnsigned.chars {s : String} (h : IsUnsigned s) :
    s.toList ≠ [] ∧ ∀ c ∈ s.toList, isNumeralChar c = true := by
  cases h with
  | numeral hcs =>
    rw [String.toList_ofList]
    exact ⟨hcs.ne_nil, hcs.chars⟩
  | nan => exact ⟨by decide, List.all_eq_true.mp (by decide)⟩
  | inf => exact ⟨by decide, List.all_eq_true.mp (by decide)⟩

/-- A number is written with at least one character, and with no others than numerals have. -/
theorem IsSigned.chars {s : String} (h : IsSigned s) :
    s.toList ≠ [] ∧ ∀ c ∈ s.toList, isNumeralChar c = true := by
  cases h with
  | plain hs => exact hs.chars
  | negated hs =>
    rw [String.toList_append, List.forall_mem_append]
    exact ⟨by simp, List.all_eq_true.mp (by decide), hs.chars.2⟩

theorem IsSigned.not_mem {s : String} (h : IsSigned s) {c : Char} (hc : isNumeralChar c = false) :
    c ∉ s.toList := by
  intro hmem
  rw [h.chars.2 c hmem] at hc
  cases hc

/-! ### Calls of built-in functions -/

theorem Builtin.of_find? {name : String} {b : Builtin} (h : Builtin.find? name = some b) :
    b ∈ Builtin.all ∧ b.name = name := by
  have hname := List.find?_some h
  exact ⟨List.mem_of_find?_eq_some h, eq_of_beq hname⟩

/-- What a call of a built-in function is written as, by the name of the function and the texts of
the arguments. -/
inductive Filled (args : List String) : String → String → Prop
  | print {a : String} (ha : args[0]? = some a) : Filled args "print" ("print(" ++ a ++ ")")
  | len {a : String} (ha : args[0]? = some a) : Filled args "len" ("len(" ++ a ++ ")")
  | isEmpty {a : String} (ha : args[0]? = some a) : Filled args "is_empty" ("len(" ++ a ++ ") == 0")
  | get {a i : String} (ha : args[0]? = some a) (hi : args[1]? = some i) :
    Filled args "get" (a ++ "[" ++ i ++ "]")
  | push {a x : String} (ha : args[0]? = some a) (hx : args[1]? = some x) :
    Filled args "push" (a ++ " + [" ++ x ++ "]")
  | range {a b : String} (ha : args[0]? = some a) (hb : args[1]? = some b) :
    Filled args "range" ("range(" ++ a ++ ", " ++ b ++ ")")

/-- A template that is filled gives one of these texts. -/
theorem filled_of_fill {args : List String} {name s : String} {b : Builtin}
    (hb : Builtin.find? name = some b) (h : Piece.fill args b.template = .ok s) :
    Filled args name s := by
  obtain ⟨hmem, rfl⟩ := Builtin.of_find? hb
  simp only [Builtin.all, List.mem_cons, List.not_mem_nil, or_false] at hmem
  -- What is asked of the arguments is whether the first two are there.
  cases ha : args[0]? with
  | none =>
    rcases hmem with rfl | rfl | rfl | rfl | rfl | rfl <;>
      simp [Piece.fill, ha, bind, Except.bind] at h
  | some a =>
    rcases hmem with rfl | rfl | rfl | hmem
    · simp only [Piece.fill, ha, bind, Except.bind, pure, Except.pure, Except.ok.injEq] at h
      simpa [← h, String.append_assoc] using Filled.print ha
    · simp only [Piece.fill, ha, bind, Except.bind, pure, Except.pure, Except.ok.injEq] at h
      simpa [← h, String.append_assoc] using Filled.len ha
    · simp only [Piece.fill, ha, bind, Except.bind, pure, Except.pure, Except.ok.injEq] at h
      simpa [← h, String.append_assoc] using Filled.isEmpty ha
    · cases hi : args[1]? with
      | none =>
        rcases hmem with rfl | rfl | rfl <;>
          simp [Piece.fill, ha, hi, bind, Except.bind] at h
      | some i =>
        rcases hmem with rfl | rfl | rfl <;>
          simp only [Piece.fill, ha, hi, bind, Except.bind, pure, Except.pure,
            Except.ok.injEq] at h
        · simpa [← h, String.append_assoc] using Filled.get ha hi
        · simpa [← h, String.append_assoc] using Filled.push ha hi
        · simpa [← h, String.append_assoc] using Filled.range ha hi

theorem emitExpr_call_of_ne {callee : Expr} (hname : ¬ ∃ name span?, callee = .name name span?)
    (args : List Expr) (span? : Option Span) :
    emitExpr (.call callee args span?) = do
      let calleeCode ← emitExpr callee
      let argCodes ← emitExprs args
      return calleeCode ++ "(" ++ commaList argCodes ++ ")" := by
  cases callee with
  | name name span? => exact absurd ⟨name, span?, rfl⟩ hname
  | _ => simp only [emitExpr]

/-- A call by name is written as a template tells, or with its name in front of its arguments,
and takes no number. -/
theorem of_namedCallCode {name : String} {codes : List String} {code : String} {n n' : Nat}
    (h : namedCallCode name codes n = (.ok code, n')) :
    (∀ b, Builtin.find? name = some b → Piece.fill codes b.template = .ok code) ∧
      (Builtin.find? name = none → code = name ++ "(" ++ commaList codes ++ ")") ∧ n' = n := by
  rw [namedCallCode] at h
  cases hfind : Builtin.find? name with
  | none =>
    rw [hfind] at h
    cases h
    exact ⟨by simp, fun _ => rfl, rfl⟩
  | some b =>
    simp only [hfind] at h
    cases hfill : Piece.fill codes b.template with
    | ok s =>
      rw [templateCode, hfill] at h
      cases h
      refine ⟨fun b' hb' => ?_, by simp, rfl⟩
      rw [← Option.some.inj hb', hfill]
    | error index =>
      rw [templateCode, hfill] at h
      cases h

end Owl
