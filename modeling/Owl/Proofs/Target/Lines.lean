/-
Values that fit on a line.

A value is written on one line, behind the indentation of the line and in front of
its end.  So it must not break the line; it must not start with a blank, which would
count as indentation; and it must not end with a colon, which would make the line
the header of a block.
-/
import Owl.Proofs.Guards
import Owl.Proofs.Renumbering.Emission
import Owl.Proofs.Target.Strings

namespace Owl

open EmitM Text

variable {s : String} {c : Char} {args : List String}

/-! ### Texts without a line break -/

def Unbroken (s : String) : Prop := s.toList.any isLineBreak = false

instance (s : String) : Decidable (Unbroken s) :=
  inferInstanceAs (Decidable (s.toList.any isLineBreak = false))

@[simp] theorem unbroken_append {a b : String} : Unbroken (a ++ b) ↔ Unbroken a ∧ Unbroken b := by
  rw [Unbroken, String.toList_append, List.any_append, Bool.or_eq_false_iff]
  rfl

theorem unbroken_iff : Unbroken s ↔ ∀ c ∈ s.toList, isLineBreak c = false := by
  rw [Unbroken, List.any_eq_false]
  simp

theorem unbroken_intercalate {sep : String} (hsep : Unbroken sep) {values : List String}
    (h : ∀ s ∈ values, Unbroken s) : Unbroken (sep.intercalate values) := by
  induction values with
  | nil => exact (by decide : Unbroken "")
  | cons a values ih =>
    rw [List.forall_mem_cons] at h
    cases values with
    | nil =>
      exact h.1
    | cons b values =>
      rw [String.intercalate_cons_cons, unbroken_append, unbroken_append]
      exact ⟨⟨h.1, hsep⟩, ih h.2⟩

theorem unbroken_commaList {values : List String} (h : ∀ s ∈ values, Unbroken s) :
    Unbroken (commaList values) :=
  unbroken_intercalate (by decide) h

theorem isLineBreak_of_isWordChar (h : isWordChar c = true) : isLineBreak c = false := by
  rw [isLineBreak, Bool.or_eq_false_iff, beq_eq_false_iff_ne, beq_eq_false_iff_ne]
  constructor
  · rintro rfl
    exact absurd h (by decide)
  · rintro rfl
    exact absurd h (by decide)

theorem any_isLineBreak_escaped (cs : List Char) :
    (cs.flatMap stringCode.escape).any isLineBreak = cs.any isLineBreak := by
  rw [List.any_flatMap]
  refine List.any_congr rfl fun c => ?_
  by_cases hspecial : (c == '\\' || c == '"') = true
  · rw [Target.escape_of_special hspecial]
    simp [isLineBreak]
  · rw [Bool.not_eq_true] at hspecial
    rw [Target.escape_of_plain hspecial, List.any_cons, List.any_nil, Bool.or_false]

/-! ### Texts that fit on a line -/

def Starts (s : String) : Prop := s.toList.head?.any (· != ' ') = true

/-- A text that ends with something else than a colon. -/
def Ends (s : String) : Prop := s.toList.getLast?.any (· != ':') = true

instance (s : String) : Decidable (Starts s) :=
  inferInstanceAs (Decidable (s.toList.head?.any (· != ' ') = true))

instance (s : String) : Decidable (Ends s) :=
  inferInstanceAs (Decidable (s.toList.getLast?.any (· != ':') = true))

theorem Starts.append {a : String} (h : Starts a) (b : String) : Starts (a ++ b) := by
  rw [Starts, String.toList_append, List.head?_append]
  rw [Starts] at h
  cases hhead : a.toList.head? with
  | none =>
    rw [hhead] at h
    cases h
  | some c =>
    rw [hhead] at h
    exact h

theorem Ends.append {b : String} (h : Ends b) (a : String) : Ends (a ++ b) := by
  rw [Ends, String.toList_append, List.getLast?_append]
  rw [Ends] at h
  cases hlast : b.toList.getLast? with
  | none =>
    rw [hlast] at h
    cases h
  | some c =>
    rw [hlast] at h
    exact h

/-- A text that fits on a line: it does not break the line, it starts with something else than a
blank, and it ends with something else than a colon. -/
structure Inline (s : String) : Prop where
  unbroken : Unbroken s
  starts : Starts s
  ends : Ends s

theorem Inline.ne_nil (h : Inline s) : s.toList ≠ [] := by
  intro hnil
  have hstarts := h.starts
  rw [Starts, hnil] at hstarts
  cases hstarts

/-- A text of characters that neither break a line nor are blanks or colons. -/
theorem Inline.of_chars (hne : s.toList ≠ [])
    (h : ∀ c ∈ s.toList, isLineBreak c = false ∧ c ≠ ' ' ∧ c ≠ ':') : Inline s := by
  constructor
  · exact unbroken_iff.mpr fun c hc => (h c hc).1
  · rw [Starts, List.head?_eq_some_head hne]
    exact bne_iff_ne.mpr (h _ (List.head_mem hne)).2.1
  · rw [Ends, List.getLast?_eq_some_getLast hne]
    exact bne_iff_ne.mpr (h _ (List.getLast_mem hne)).2.2

theorem Inline.of_word (hne : s ≠ "") (hword : s.toList.all isWordChar = true) : Inline s := by
  refine .of_chars (by rwa [Ne, String.toList_eq_nil_iff]) fun c hc => ?_
  have hc := List.all_eq_true.mp hword c hc
  refine ⟨isLineBreak_of_isWordChar hc, ?_, ?_⟩
  · rintro rfl
    exact absurd hc (by decide)
  · rintro rfl
    exact absurd hc (by decide)

theorem IsSigned.inline (h : IsSigned s) : Inline s := by
  refine .of_chars h.chars.1 fun c hc => ?_
  have hne : ∀ d, isNumeralChar d = false → c ≠ d := by
    rintro d hd rfl
    exact h.not_mem hd hc
  refine ⟨?_, hne ' ' (by decide), hne ':' (by decide)⟩
  rw [isLineBreak, Bool.or_eq_false_iff, beq_eq_false_iff_ne, beq_eq_false_iff_ne]
  exact ⟨hne '\n' (by decide), hne '\r' (by decide)⟩

theorem inline_stringCode (h : Unbroken s) : Inline (stringCode s) := by
  refine ⟨?_, ?_, ?_⟩
  · rw [Unbroken, Target.toList_stringCode, List.any_cons, List.any_append,
      any_isLineBreak_escaped, h]
    decide
  · rw [Starts, Target.toList_stringCode]
    rfl
  · rw [Ends, Target.toList_stringCode, ← List.cons_append, List.getLast?_concat]
    rfl

/-- A name that is made up of a stem and a number. -/
theorem Inline.numbered {stem : String} (h : Inline stem) (n : Nat) :
    Inline (stem ++ toString n) := by
  have hnumber : Inline (toString n) := (IsSigned.plain (isUnsigned_nat n)).inline
  exact ⟨unbroken_append.mpr ⟨h.unbroken, hnumber.unbroken⟩, h.starts.append _,
    hnumber.ends.append _⟩

/-! ### Replaced words -/

/-- A change that goes word by word and gives words that fit on a line keeps a text on its line. -/
theorem Wordwise.inline {f : String → String} (hf : Wordwise f)
    (hword : ∀ w : String, w ≠ "" → w.toList.all isWordChar = true → Inline (f w))
    (h : Inline s) : Inline (f s) := by
  have hparts : ∀ cs : List Char,
      (Unbroken (.ofList cs) → Unbroken (f (.ofList cs))) ∧
      (Starts (.ofList cs) → Starts (f (.ofList cs))) ∧
      (Ends (.ofList cs) → Ends (f (.ofList cs))) := by
    intro cs
    induction cs using words_induction with
    | word w hw =>
      by_cases hne : w = []
      · subst hne
        rw [String.ofList_nil, hf.empty]
        exact ⟨fun h => h, fun h => h, fun h => h⟩
      · have hinline := hword (.ofList w) (by simpa using hne) (by rwa [String.toList_ofList])
        exact ⟨fun _ => hinline.unbroken, fun _ => hinline.starts, fun _ => hinline.ends⟩
    | cut w c rest hw hc ih =>
      have htext : String.ofList (w ++ c :: rest) = .ofList w ++ .ofList [c] ++ .ofList rest := by
        simp [← String.toList_inj]
      rw [htext, hf.between _ (by simp [isMark, hc])]
      have hfirst : w = [] ∨ Inline (f (.ofList w)) := by
        by_cases hne : w = []
        · exact .inl hne
        · exact .inr (hword _ (by simpa using hne) (by rwa [String.toList_ofList]))
      refine ⟨fun hall => ?_, fun hstarts => ?_, fun hends => ?_⟩
      · simp only [unbroken_append] at hall ⊢
        refine ⟨⟨?_, hall.1.2⟩, ih.1 hall.2⟩
        obtain rfl | hfirst := hfirst
        · rw [String.ofList_nil, hf.empty]
          decide
        · exact hfirst.unbroken
      · obtain rfl | hfirst := hfirst
        · rw [String.ofList_nil, hf.empty]
          simpa [Starts] using hstarts
        · exact (hfirst.starts.append _).append _
      · by_cases hrest : rest = []
        · subst hrest
          rw [String.ofList_nil, hf.empty]
          simpa [Ends] using hends
        · refine (ih.2.2 ?_).append _
          simpa [Ends, List.getLast?_cons_of_ne_nil hrest, List.getLast?_eq_some_getLast hrest]
            using hends
  have htext := hparts s.toList
  rw [String.ofList_toList] at htext
  exact ⟨htext.1 h.unbroken, htext.2.1 h.starts, htext.2.2 h.ends⟩

theorem Pattern.inline_bind {temp body : String} (htemp : Inline temp) (hbody : Inline body)
    {p : Pattern} (hp : ∀ w ∈ p.words, w.Formed) : Inline (p.bind temp body) := by
  have hpart : ∀ part, Unbroken part → Ends part → Inline (temp ++ part) := fun part hpart hends =>
    ⟨unbroken_append.mpr ⟨htemp.unbroken, hpart⟩, htemp.starts.append part, hends.append temp⟩
  have hreplace : ∀ binding new, (Word.name binding).Formed → Inline new →
      Inline (replaceWord binding new body) := by
    intro binding new hname hnew
    refine (replaceWord_wordwise hname.name.1 hname.name.2 new).inline (fun w hne hw => ?_) hbody
    rw [replaceWord_word hname.name.1 hname.name.2 new hw]
    split
    · exact hnew
    · exact .of_word hne hw
  cases p with
  | some binding | ok binding =>
    exact hreplace binding _ (hp _ (by simp [words])) (hpart ".value" (by decide) (by decide))
  | err binding =>
    exact hreplace binding _ (hp _ (by simp [words])) (hpart ".error" (by decide) (by decide))
  | none | unknown => exact hbody

theorem Pattern.unbroken_test {temp : String} (htemp : Unbroken temp) (p : Pattern) :
    Unbroken (p.test temp) := by
  cases p <;> simp only [Pattern.test, unbroken_append, htemp, true_and, and_true] <;> decide

/-! ### Expressions -/

def Word.string? : Word → Option String
  | .spelled .string s => some s
  | _ => none

/-- Words that can be written within a line. -/
def Word.Flat (w : Word) : Prop := w.Formed ∧ ∀ s ∈ w.string?, Unbroken s

theorem Word.Flat.inline (h : (Word.name s).Flat) : Inline s :=
  .of_word h.1.name.1 h.1.name.2

theorem operators_unbroken : ∀ kind ∈ operatorKinds,
    (kind.fixedText?.all fun op => decide (Unbroken op)) = true := by
  decide +kernel

theorem Word.Flat.operator {op : String} (h : (Word.operator op).Flat) : Unbroken op :=
  of_decide_eq_true (h.1.operator_all operators_unbroken)

theorem Filled.inline {name : String} (h : Filled args name s) (hargs : ∀ a ∈ args, Inline a) :
    Inline s := by
  have hmem : ∀ {i : Nat} {a : String}, args[i]? = some a → Inline a :=
    fun ha => hargs _ (List.mem_of_getElem? ha)
  cases h with
  | print ha | len ha | isEmpty ha =>
    exact ⟨by simp +decide [(hmem ha).unbroken], by simp [Starts],
      Ends.append (by decide) _⟩
  | get ha hx | push ha hx =>
    refine ⟨by simp +decide [(hmem ha).unbroken, (hmem hx).unbroken], ?_, ?_⟩
    · exact (((hmem ha).starts.append _).append _).append _
    · exact Ends.append (by decide) _
  | range ha hb =>
    exact ⟨by simp +decide [(hmem ha).unbroken, (hmem hb).unbroken], by simp [Starts],
      Ends.append (by decide) _⟩

/-- What is called, with its arguments between parentheses. -/
theorem inline_callCode {callee : String} (hcallee : Inline callee) (hargs : ∀ a ∈ args, Inline a) :
    Inline (callee ++ "(" ++ commaList args ++ ")") := by
  have hlist := unbroken_commaList fun a ha => (hargs a ha).unbroken
  refine ⟨by simp +decide [hcallee.unbroken, hlist], ?_, ?_⟩
  · exact ((hcallee.starts.append _).append _).append _
  · exact Ends.append (by decide) _

theorem inline_namedCallCode {name : String} (hname : Inline name) (hargs : ∀ a ∈ args, Inline a)
    {n n' : Nat} {code : String} (h : namedCallCode name args n = (.ok code, n')) :
    Inline code := by
  obtain ⟨hbuiltin, hother, -⟩ := of_namedCallCode h
  cases hfind : Builtin.find? name with
  | none =>
    rw [hother hfind]
    exact inline_callCode hname hargs
  | some b => exact (filled_of_fill hfind (hbuiltin b hfind)).inline hargs

mutual

/-- The value of an expression fits on a line. -/
theorem emitExpr_inline : ∀ e : Expr, (∀ w ∈ e.words, w.Flat) → Gives (emitExpr e) Inline
  | .int value _, _ => .pure (spelled_int value).inline
  | .float value _, _ => .pure value.spelled_text.inline
  | .string value _, hwords => by
    rw [Expr.words, List.forall_mem_singleton] at hwords
    exact .pure (inline_stringCode (hwords.2 value rfl))
  | .bool value _, _ => .pure (by cases value <;> exact ⟨by decide, by decide, by decide⟩)
  | .name name _, hwords => by
    rw [Expr.words, List.forall_mem_singleton] at hwords
    exact .pure hwords.inline
  | .binary left op right _, hwords => by
    simp only [Expr.words, List.forall_mem_append, List.forall_mem_singleton] at hwords
    refine (emitExpr_inline left hwords.1.1).bind fun l hl => ?_
    refine (emitExpr_inline right hwords.2).bind fun r hr => .pure ?_
    exact ⟨by simp +decide [hl.unbroken, hwords.1.2.operator, hr.unbroken], by simp [Starts],
      Ends.append (by decide) _⟩
  | .unary op operand _, hwords => by
    simp only [Expr.words, List.forall_mem_append, List.forall_mem_singleton] at hwords
    refine (emitExpr_inline operand hwords.2).bind fun code hcode => .pure ?_
    exact ⟨by simp +decide [hwords.1.operator, hcode.unbroken], by simp [Starts],
      Ends.append (by decide) _⟩
  | .call callee args _, hwords => by
    rw [Expr.words, List.forall_mem_append] at hwords
    -- The call of a name may be a filled template; any other callee is emitted itself.
    by_cases hname : ∃ name span?, callee = .name name span?
    · obtain ⟨name, span?, rfl⟩ := hname
      rw [Expr.words, List.forall_mem_singleton] at hwords
      exact (emitExprs_inline args hwords.2).bind fun codes hcodes n n' code =>
        inline_namedCallCode hwords.1.inline hcodes
    · rw [emitExpr_call_of_ne hname]
      refine (emitExpr_inline callee hwords.1).bind fun code hcode => ?_
      exact (emitExprs_inline args hwords.2).bind fun codes hcodes =>
        .pure (inline_callCode hcode hcodes)
  | .field object field _, hwords => by
    simp only [Expr.words, List.forall_mem_append, List.forall_mem_cons] at hwords
    have hfield := hwords.2.2.1.inline
    refine (emitExpr_inline object hwords.1).bind fun code hcode => .pure ?_
    exact ⟨by simp +decide [hcode.unbroken, hfield.unbroken],
      (hcode.starts.append _).append _, hfield.ends.append _⟩
  | .propagate operand _, hwords => by
    rw [Expr.words, List.forall_mem_append] at hwords
    refine (emitExpr_inline operand hwords.1).bind fun code hcode => .pure ?_
    exact ⟨by simp +decide [hcode.unbroken], by simp [Starts], Ends.append (by decide) _⟩
  | .list elements _, hwords => by
    simp only [Expr.words, List.forall_mem_append] at hwords
    refine (emitExprs_inline elements hwords.1.2).bind fun codes hcodes => .pure ?_
    have hlist := unbroken_commaList fun a ha => (hcodes a ha).unbroken
    exact ⟨by simp +decide [hlist], by simp [Starts], Ends.append (by decide) _⟩
  | .matching subject arms _, hwords => by
    simp only [Expr.words, List.forall_mem_append] at hwords
    refine (emitExpr_inline subject hwords.1.1.1.2).bind fun code hcode => ?_
    refine (Gives.any _).bind fun number _ => ?_
    have htemp : Inline ("__match_" ++ toString number) :=
      Inline.numbered ⟨by decide, by decide, by decide⟩ number
    refine (emitArms_inline htemp arms hwords.1.2).bind fun choice hchoice => .pure ?_
    -- Only `htemp` matters from here, and `decide` must not open the text.
    generalize "__match_" ++ toString number = temp at htemp
    exact ⟨by simp +decide [htemp.unbroken, hchoice.unbroken, hcode.unbroken], by simp [Starts],
      Ends.append (by decide) _⟩
  | .stmt _, _ | .unknown, _ => .fail _

theorem emitExprs_inline : ∀ es : List Expr, (∀ w ∈ exprsWords es, w.Flat) →
    Gives (emitExprs es) fun codes => ∀ a ∈ codes, Inline a
  | [], _ => .pure (List.forall_mem_nil _)
  | e :: es, hwords => by
    rw [exprsWords, List.forall_mem_append] at hwords
    refine (emitExpr_inline e hwords.1).bind fun first hfirst => ?_
    exact (emitExprs_inline es hwords.2).bind fun rest hrest =>
      .pure (List.forall_mem_cons.mpr ⟨hfirst, hrest⟩)

theorem emitArms_inline {temp : String} (htemp : Inline temp) : ∀ arms : List Arm,
    (∀ w ∈ armsWords arms, w.Flat) → Gives (emitArms temp arms) Inline
  | [], _ => .pure ⟨by decide, by decide, by decide⟩
  | [⟨pattern, body, _⟩], hwords => by
    simp only [armsWords, List.forall_mem_append] at hwords
    exact (emitExpr_inline body hwords.1.2).bind fun code hcode =>
      .pure (Pattern.inline_bind htemp hcode fun w hw => (hwords.1.1.1 w hw).1)
  | ⟨pattern, body, _⟩ :: arm :: arms, hwords => by
    rw [armsWords] at hwords
    simp only [List.forall_mem_append] at hwords
    refine (emitExpr_inline body hwords.1.2).bind fun code hcode => ?_
    refine (emitArms_inline htemp (arm :: arms) hwords.2).bind fun rest hrest => .pure ?_
    have hfirst := Pattern.inline_bind htemp hcode fun w hw => (hwords.1.1.1 w hw).1
    have htest := pattern.unbroken_test htemp.unbroken
    exact ⟨by simp +decide [hfirst.unbroken, htest, hrest.unbroken], by simp [Starts],
      Ends.append (by decide) _⟩

end

end Owl
