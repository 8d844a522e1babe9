/-
When the classes of results are defined.

Code that builds a result or asks whether it is a failure needs the classes of
results.  They are put in front of a program if a search through its tree finds
such a use.  The search leaves out some parts of the tree: the loops over a
collection, the loops without a condition, lists and matches.

* `Program.resultUses` — the uses of results in a program, wherever they stand,
  each with the parts around it that the search leaves out;
* `Program.Laid.lacks` — a class without a use is not named in the code;
* `emit_lacks_classes` — so there are programs that build results, or test for
  them, and do not define the classes.
-/
import Owl.Proofs.Substitution
import Owl.Proofs.Visiting.Placement

namespace Owl

open Text

/-! ### Uses of results -/

def resultClasses : List String := ["Ok", "Err"]

/-- A part of a tree that is left out by the search for results. -/
inductive Cover
  | forLoop
  | loop
  | list
  | matching
deriving DecidableEq, Repr

/-- What a class of results is named for: a result is built, its success is asked for, or a pattern
is tested.  Or it is only mentioned: as a name that is not called, as a field, or in a literal. -/
inductive ResultNeed
  | construction
  | question
  | test
  | mention
deriving DecidableEq, Repr

/-- A use of a class, and the parts around it that are left out, from the outside in. -/
structure ResultUse where
  need : ResultNeed
  name : String
  covers : List Cover := []
deriving DecidableEq, Repr

/-- A use inside of one more part that is left out. -/
def ResultUse.under (cover : Cover) (u : ResultUse) : ResultUse :=
  { u with covers := cover :: u.covers }

def Pattern.resultUses : Pattern → List ResultUse
  | .ok .. => [{ need := .test, name := "Ok" }]
  | .err .. => [{ need := .test, name := "Err" }]
  | .some .. | .none _ | .unknown => []

/-- The uses in what is called, of which those are given that it has anyway.  A constructor of
results that is called builds one. -/
def Expr.calleeUses (uses : List ResultUse) : Expr → List ResultUse
  | .name callee _ =>
    (resultClasses.filter (· == callee)).map ({ need := .construction, name := · })
  | _ => uses

/-- The classes that are mentioned in a text. -/
def mentionUses (s : String) : List ResultUse :=
  (resultClasses.filter (!isOutside · s)).map ({ need := .mention, name := · })

mutual

def Expr.resultUses : Expr → List ResultUse
  | .int value _ => mentionUses (toString value)
  | .float value _ => mentionUses value.text
  | .string value _ => mentionUses (stringCode value)
  | .bool value _ => mentionUses (boolText value)
  | .name name _ => mentionUses name
  | .binary left _ right _ => left.resultUses ++ right.resultUses
  | .unary _ operand _ => operand.resultUses
  | .call callee args _ => callee.calleeUses callee.resultUses ++ exprsResultUses args
  | .field object field _ => object.resultUses ++ mentionUses field
  | .propagate operand _ => { need := .question, name := "Err" } :: operand.resultUses
  | .list elements _ => (exprsResultUses elements).map (.under .list)
  | .matching subject arms _ =>
    (subject.resultUses ++ armsResultUses arms).map (.under .matching)
  | .stmt _ | .unknown => []

def exprsResultUses : List Expr → List ResultUse
  | [] => []
  | e :: es => e.resultUses ++ exprsResultUses es

/-- The uses of results in arms; the last one is taken without a test. -/
def armsResultUses : List Arm → List ResultUse
  | [] => []
  | [⟨_, body, _⟩] => body.resultUses
  | ⟨pattern, body, _⟩ :: arms => pattern.resultUses ++ (body.resultUses ++ armsResultUses arms)

end

mutual

def Stmt.resultUses : Stmt → List ResultUse
  | .letVar _ value _ _ _ => value.resultUses
  | .assign _ value _ => value.resultUses
  | .expr e _ => e.resultUses
  | .ret none _ => []
  | .ret (some value) _ => value.resultUses
  | .whileLoop condition body _ => condition.resultUses ++ stmtsResultUses body
  | .forLoop _ collection body _ =>
    (collection.resultUses ++ stmtsResultUses body).map (.under .forLoop)
  | .loop body _ => (stmtsResultUses body).map (.under .loop)
  | .ifElse condition thenBody none _ => condition.resultUses ++ stmtsResultUses thenBody
  | .ifElse condition thenBody (some elseBody) _ =>
    condition.resultUses ++ (stmtsResultUses thenBody ++ stmtsResultUses elseBody)
  | .breakLoop _ | .continueLoop _ | .fn _ | .bare _ | .unknown => []

def stmtsResultUses : List Stmt → List ResultUse
  | [] => []
  | s :: rest => s.resultUses ++ stmtsResultUses rest

end

def Program.resultUses (p : Program) : List ResultUse :=
  (p.functions.flatMap fun f => stmtsResultUses f.body) ++ stmtsResultUses p.statements

/-! ### The words of values -/

section Classes

variable {b s : String}

theorem fixed_outside : ∀ b ∈ resultClasses,
    isWord b = true ∧ isMatchName b = false ∧ b.toList.head? ≠ some '_' ∧ isOutside b b = false ∧
    isOutside b ".value" = true ∧ isOutside b ".error" = true ∧ isOutside b ").value" = true ∧
    isOutside b "((lambda " = true ∧ isOutside b "None" = true ∧ isOutside b "True" = true ∧
    isOutside b " if  else " = true := by
  decide +kernel

theorem operators_outside : ∀ b ∈ resultClasses, ∀ kind ∈ operatorKinds,
    (kind.fixedText?.all fun op => isOutside b op && isShut op) = true := by
  decide +kernel

theorem builtins_outside : ∀ b ∈ resultClasses, ∀ builtin ∈ Builtin.all,
    b ∉ builtin.words := by
  decide +kernel

theorem isOutside_of_mentionUses (hb : b ∈ resultClasses)
    (h : ∀ u ∈ mentionUses s, u.name ≠ b) : isOutside b s = true := by
  by_contra hmem
  exact h ⟨.mention, b, []⟩ (by simpa [mentionUses, hb] using hmem) rfl

theorem Expr.callsApart_of_ne (hb : b ∈ resultClasses) (hne : s ≠ b) (span? : Option Span) :
    (Expr.name s span?).callsApart b = true := by
  rw [Expr.callsApart]
  split
  · next builtin hfind =>
    have hout := builtins_outside b hb builtin (List.mem_of_find?_eq_some hfind)
    simp [hne, hout]
  · rfl

theorem Pattern.isOutside_test (hb : b ∈ resultClasses) {p : Pattern}
    (h : ∀ u ∈ p.resultUses, u.name ≠ b) : isOutside b (p.test "") = true := by
  -- a test does not name the binding, so one pattern of each kind is enough
  have hall : ∀ b ∈ resultClasses, ∀ p : Pattern, p ∈ [.some "" Option.none, .none Option.none,
      .ok "" Option.none, .err "" Option.none, .unknown] →
      (∀ u ∈ p.resultUses, u.name ≠ b) → isOutside b (p.test "") = true := by
    decide +kernel
  cases p with
  | some => exact hall b hb (.some "" Option.none) (by simp) h
  | none => exact hall b hb (.none Option.none) (by simp) h
  | ok => exact hall b hb (.ok "" Option.none) (by simp) h
  | err => exact hall b hb (.err "" Option.none) (by simp) h
  | unknown => exact hall b hb .unknown (by simp) h

theorem Pattern.apart_of_formed (hb : b ∈ resultClasses) {p : Pattern}
    (hp : ∀ w ∈ p.words, w.Formed) : p.apart b [] false true = true := by
  cases p with
  | some binding | ok binding | err binding =>
    have hname : (Word.name binding).Formed := hp _ (by simp [Pattern.words])
    simp [Pattern.apart, Pattern.binding?, Pattern.part, isWord, fixed_outside b hb, hname.name]
  | none | unknown => rfl

end Classes

mutual

/-- Where a class is not used, no word of a value is its name. -/
theorem Expr.apart_of_uses {b : String} (hb : b ∈ resultClasses) : ∀ e : Expr,
    (∀ w ∈ e.words, w.Formed) → (∀ u ∈ e.resultUses, u.name ≠ b) →
    e.apart b [] = true ∧ e.hasFree b = false
  | .int .. | .float .. | .string .. | .bool .. => by
    intro _ h
    rw [Expr.resultUses] at h
    rw [Expr.apart, Expr.hasFree]
    exact ⟨isOutside_of_mentionUses hb h, rfl⟩
  | .name name _ => by
    intro _ h
    rw [Expr.resultUses] at h
    have hout := isOutside_of_mentionUses hb h
    have hne : name ≠ b := by
      rintro rfl
      simp [fixed_outside name hb] at hout
    simp [Expr.apart, Expr.hasFree, hout, hne]
  | .binary left op right _ => by
    intro hwords h
    simp only [Expr.words, List.forall_mem_append, List.forall_mem_singleton] at hwords
    rw [Expr.resultUses, List.forall_mem_append] at h
    have hop := hwords.1.2.operator_all (operators_outside b hb)
    have hleft := left.apart_of_uses hb hwords.1.1 h.1
    have hright := right.apart_of_uses hb hwords.2 h.2
    simp_all [Expr.apart, Expr.hasFree]
  | .unary op operand _ => by
    intro hwords h
    simp only [Expr.words, List.forall_mem_append, List.forall_mem_singleton] at hwords
    rw [Expr.resultUses] at h
    have hop := hwords.1.operator_all (operators_outside b hb)
    have hoperand := operand.apart_of_uses hb hwords.2 h
    simp_all [Expr.apart, Expr.hasFree]
  | .call callee args _ => by
    intro hwords h
    rw [Expr.words, List.forall_mem_append] at hwords
    rw [Expr.resultUses, List.forall_mem_append] at h
    have hargs := exprsApart_of_uses hb args hwords.2 h.2
    -- a name that is called may be a builtin, whose code has words of its own
    by_cases hnamed : ∃ name span?, callee = .name name span?
    · obtain ⟨name, span?, rfl⟩ := hnamed
      have hne : name ≠ b := by
        rintro rfl
        exact h.1 ⟨.construction, name, []⟩ (by simpa [Expr.calleeUses] using hb) rfl
      have hname : (Word.name name).Formed := hwords.1 _ (by simp [Expr.words])
      have hwords := wordsOf_word hname.name.2
      rw [String.ofList_toList] at hwords
      simp [Expr.apart, Expr.hasFree, Expr.callsApart_of_ne hb hne, isOutside, hwords, hne,
        hne.symm, hargs]
    · have huses : callee.calleeUses callee.resultUses = callee.resultUses ∧
          callee.callsApart b = true := by
        cases callee with
        | name name span? => exact absurd ⟨name, span?, rfl⟩ hnamed
        | _ => exact ⟨rfl, rfl⟩
      rw [huses.1] at h
      simp [Expr.apart, Expr.hasFree, huses.2, callee.apart_of_uses hb hwords.1 h.1, hargs]
  | .field object field _ => by
    intro hwords h
    rw [Expr.words, List.forall_mem_append] at hwords
    rw [Expr.resultUses, List.forall_mem_append] at h
    have hobject := object.apart_of_uses hb hwords.1 h.1
    simp [Expr.apart, Expr.hasFree, hobject, isOutside_of_mentionUses hb h.2]
  | .propagate operand _ => by
    intro hwords h
    rw [Expr.words, List.forall_mem_append] at hwords
    rw [Expr.resultUses, List.forall_mem_cons] at h
    have hoperand := operand.apart_of_uses hb hwords.1 h.2
    simp [Expr.apart, Expr.hasFree, hoperand, fixed_outside b hb]
  | .list elements _ => by
    intro hwords h
    simp only [Expr.words, List.forall_mem_append] at hwords
    rw [Expr.resultUses, List.forall_mem_map] at h
    simpa [Expr.apart, Expr.hasFree] using exprsApart_of_uses hb elements hwords.1.2 h
  | .matching subject arms _ => by
    intro hwords h
    simp only [Expr.words, List.forall_mem_append] at hwords
    rw [Expr.resultUses, List.forall_mem_map, List.forall_mem_append] at h
    have hsubject := subject.apart_of_uses hb hwords.1.1.1.2 h.1
    have harms := armsApart_of_uses hb arms hwords.1.2 h.2
    simp [Expr.apart, Expr.hasFree, hsubject, harms, fixed_outside b hb]
  | .stmt _ | .unknown => by simp [Expr.apart, Expr.hasFree]

theorem exprsApart_of_uses {b : String} (hb : b ∈ resultClasses) : ∀ es : List Expr,
    (∀ w ∈ exprsWords es, w.Formed) → (∀ u ∈ exprsResultUses es, u.name ≠ b) →
    exprsApart b [] es = true ∧ exprsHaveFree b es = false
  | [] => by simp [exprsApart, exprsHaveFree]
  | e :: es => by
    intro hwords h
    rw [exprsWords, List.forall_mem_append] at hwords
    rw [exprsResultUses, List.forall_mem_append] at h
    simp [exprsApart, exprsHaveFree, e.apart_of_uses hb hwords.1 h.1,
      exprsApart_of_uses hb es hwords.2 h.2]

theorem armsApart_of_uses {b : String} (hb : b ∈ resultClasses) : ∀ arms : List Arm,
    (∀ w ∈ armsWords arms, w.Formed) → (∀ u ∈ armsResultUses arms, u.name ≠ b) →
    armsApart b [] arms = true ∧ armsHaveFree b arms = false
  | [] => by simp [armsApart, armsHaveFree, fixed_outside b hb]
  | [⟨pattern, body, _⟩] => by
    intro hwords h
    simp only [armsWords, List.forall_mem_append] at hwords
    rw [armsResultUses] at h
    simp [armsApart, armsHaveFree, body.apart_of_uses hb hwords.1.2 h,
      Pattern.apart_of_formed hb hwords.1.1.1]
  | ⟨pattern, body, _⟩ :: arm :: arms => by
    intro hwords h
    rw [armsWords] at hwords
    simp only [List.forall_mem_append] at hwords
    simp only [armsResultUses, List.forall_mem_append] at h
    have hrest := armsApart_of_uses hb (arm :: arms) hwords.2 h.2.2
    rw [armsApart, armsHaveFree]
    · simp [body.apart_of_uses hb hwords.1.2 h.2.1, hrest, Pattern.isOutside_test hb h.1,
        Pattern.apart_of_formed hb hwords.1.1.1, fixed_outside b hb]
    · exact List.cons_ne_nil arm arms

end

/-! ### The words of the code -/

section Laid

variable {b : String} (hb : b ∈ resultClasses)

include hb

theorem Expr.Spells.lacks {e : Expr} {code : String} (h : e.Spells code)
    (hwords : ∀ w ∈ e.words, w.Formed) (hnone : ∀ u ∈ e.resultUses, u.name ≠ b) :
    b ∉ wordsOf code := by
  obtain ⟨n, n', hrun⟩ := h
  obtain ⟨hapart, hfree⟩ := e.apart_of_uses hb hwords hnone
  exact not_mem_of_apart (fixed_outside b hb).1 hapart hfree hrun

theorem Guard.replaceWord_temp (g : Guard) (new : String) : replaceWord b new g.temp = g.temp := by
  have hchars : g.temp.toList.all isWordChar = true :=
    numberedName_wordChars (by decide) g.number
  rw [replaceWord_of_word (fixed_outside b hb).1 new hchars, if_neg]
  -- a temporary starts with an underscore, and no class does
  rintro rfl
  exact (fixed_outside _ hb).2.2.1 (by simp [Guard.temp])

/-- A guard names the class of failures, and what its operand names. -/
theorem Guard.lacks (hne : "Err" ≠ b) {g : Guard} (h : b ∉ wordsOf g.operand) :
    (∀ value ∈ blockValues g.code, b ∉ wordsOf value) ∧ b ∉ wordsOf (g.temp ++ ".value") := by
  have hword := (fixed_outside b hb).1
  have htemp := g.replaceWord_temp hb
  have hout : isOutside b ((Pattern.err "" none).test "") = true :=
    Pattern.isOutside_test hb (by simpa [Pattern.resultUses] using hne)
  have htest : b ∉ wordsOf ("isinstance(" ++ g.temp ++ ", Err)") :=
    not_mem_of_replaceWord hword (Pattern.replaceWord_test hword _ hout (htemp _))
  have hvalue : replaceWord b "." (g.temp ++ ".value") = g.temp ++ ".value" := by
    rw [(isWord.wordwise hword _).append_apart _ _ (by decide), htemp,
      replaceWord_of_outside hword _ (by simp [fixed_outside b hb])]
  refine ⟨?_, not_mem_of_replaceWord hword hvalue⟩
  simpa [Guard.code] using ⟨h, htest, not_mem_of_replaceWord hword (htemp _)⟩

theorem Valued.lacks {place : QuestionPlace} {e : Expr} {gs : List Guard} {code : String}
    (h : Valued place e gs code) (hwords : ∀ w ∈ e.words, w.Formed)
    (hnone : ∀ u ∈ e.resultUses, u.name ≠ b) :
    ∀ value ∈ blockValues (gs.flatMap Guard.code) ++ [code], b ∉ wordsOf value := by
  cases h with
  | @guarded operand span? g hplace hoperand =>
    rw [Expr.words, List.forall_mem_append] at hwords
    rw [Expr.resultUses, List.forall_mem_cons] at hnone
    obtain ⟨hguard, hvalue⟩ := g.lacks hb hnone.1 (hoperand.lacks hb hwords.1 hnone.2)
    simpa [or_imp, forall_and] using And.intro hguard hvalue
  | plain hplace hcode => simpa using hcode.lacks hb hwords hnone

end Laid

mutual

/-- Where a class is not used in a statement, its code does not name it. -/
theorem Stmt.Laid.lacks {b : String} (hb : b ∈ resultClasses) :
    ∀ {use : Use} {s : Stmt} {gs : List Guard} {code : List Code}, s.Laid use gs code →
    (∀ w ∈ s.words, w.Formed) → (∀ u ∈ s.resultUses, u.name ≠ b) →
    ∀ value ∈ blockValues code, b ∉ wordsOf value
  | _, .letVar .., _, _, .letVar hvalue, hwords, hnone
  | _, .assign .., _, _, .assign hvalue, hwords, hnone
  | _, .ret (some _) _, _, _, .ret hvalue, hwords, hnone => by
    simp only [Stmt.words, List.forall_mem_append] at hwords
    rw [blockValues_append]
    exact hvalue.lacks hb hwords.2 hnone
  | _, .expr .., _, _, .value hvalue, hwords, hnone => by
    rw [blockValues_append]
    exact hvalue.lacks hb hwords hnone
  | _, .expr (.propagate ..) _, _, _, .question hoperand, hwords, hnone => by
    rw [Stmt.words, Expr.words, List.forall_mem_append] at hwords
    rw [Stmt.resultUses, Expr.resultUses, List.forall_mem_cons] at hnone
    exact (Guard.lacks hb hnone.1 (hoperand.lacks hb hwords.1 hnone.2)).1
  | _, .expr .., _, _, .effect _ hcode, hwords, hnone => by
    simpa using hcode.lacks hb hwords hnone
  | _, .ret none _, _, _, .retNone, _, _
  | _, .breakLoop _, _, _, .breakLoop, _, _
  | _, .continueLoop _, _, _, .continueLoop, _, _ => by simp
  | _, .whileLoop .., _, _, .whileLoop hvalue hbody, hwords, hnone
  | _, .ifElse _ _ none _, _, _, .ifThen hvalue hbody, hwords, hnone => by
    simp only [Stmt.words, List.forall_mem_append] at hwords
    rw [Stmt.resultUses, List.forall_mem_append] at hnone
    simpa [blockValues_suite, blockValues_blockCode] using
      And.intro (hvalue.lacks hb hwords.1.1.1.2 hnone.1) (hbody.lacks hb hwords.1.2 hnone.2)
  | _, .forLoop .., _, _, .forLoop hvalue hbody, hwords, hnone => by
    simp only [Stmt.words, List.forall_mem_append] at hwords
    rw [Stmt.resultUses, List.forall_mem_map, List.forall_mem_append] at hnone
    simpa [blockValues_suite] using
      And.intro (hvalue.lacks hb hwords.1.1.1.2 hnone.1) (hbody.lacks hb hwords.1.2 hnone.2)
  | _, .loop .., _, _, .loop hbody, hwords, hnone => by
    simp only [Stmt.words, List.forall_mem_append] at hwords
    rw [Stmt.resultUses, List.forall_mem_map] at hnone
    have hout : isOutside b "True" = true := by simp [fixed_outside b hb]
    have htrue : b ∉ wordsOf "True" := by simpa [isOutside] using hout
    simpa [blockValues_suite] using And.intro htrue (hbody.lacks hb hwords.1.2 hnone)
  | _, .ifElse _ _ (some _) _, _, _, .ifElse hcondition hthen helse, hwords, hnone => by
    simp only [Stmt.words, List.forall_mem_append] at hwords
    simp only [Stmt.resultUses, List.forall_mem_append] at hnone
    have hbodies := And.intro (hthen.lacks hb hwords.1.1.1.2 hnone.2.1)
      (helse.lacks hb hwords.1.2 hnone.2.2)
    simpa [blockValues_blockCode, or_imp, forall_and] using
      And.intro (hcondition.lacks hb hwords.1.1.1.1.1.2 hnone.1) hbodies

theorem BlockLaid.lacks {b : String} (hb : b ∈ resultClasses) :
    ∀ {use : Use} {ss : List Stmt} {gs : List Guard} {code : List Code}, BlockLaid use ss gs code →
    (∀ w ∈ stmtsWords ss, w.Formed) → (∀ u ∈ stmtsResultUses ss, u.name ≠ b) →
    ∀ value ∈ blockValues code, b ∉ wordsOf value
  | _, [], _, _, .nil, _, _ => by simp
  | _, _ :: _, _, _, .cons hfirst hrest, hwords, hnone => by
    rw [stmtsWords, List.forall_mem_append] at hwords
    rw [stmtsResultUses, List.forall_mem_append] at hnone
    rw [blockValues_append, List.forall_mem_append]
    exact ⟨hfirst.lacks hb hwords.1 hnone.1, hrest.lacks hb hwords.2 hnone.2⟩

end

theorem FnsLaid.lacks {b : String} (hb : b ∈ resultClasses) {fs : List FnDecl} {gs : List Guard}
    {fns : List CodeFn} (h : FnsLaid fs gs fns) (hwords : ∀ f ∈ fs, ∀ w ∈ f.words, w.Formed)
    (hnone : ∀ u ∈ fs.flatMap fun f => stmtsResultUses f.body, u.name ≠ b) :
    ∀ value ∈ fns.flatMap fun fn => blockValues fn.body, b ∉ wordsOf value := by
  induction h with
  | nil => simp
  | @cons f fs gs gs' body fns hbody hrest ih =>
    rw [List.forall_mem_cons] at hwords
    rw [List.flatMap_cons, List.forall_mem_append] at hnone
    rw [List.flatMap_cons, List.forall_mem_append, blockValues_suite]
    refine ⟨hbody.lacks hb (fun w hw => hwords.1 w ?_) hnone.1, ih hwords.2 hnone.2⟩
    cases f
    simp [FnDecl.words, hw]

/-- Where a class is not used in a program, its code does not name it. -/
theorem Program.Laid.lacks {b : String} (hb : b ∈ resultClasses) {p : Program} {gs : List Guard}
    {file : CodeFile} (h : p.Laid gs file)
    (hfunctions : ∀ f ∈ p.functions, ∀ w ∈ f.words, w.Formed)
    (hstatements : ∀ w ∈ stmtsWords p.statements, w.Formed)
    (hnone : ∀ u ∈ p.resultUses, u.name ≠ b) : ∀ value ∈ file.values, b ∉ wordsOf value := by
  obtain ⟨hfns, hblock⟩ := h
  rw [Program.resultUses, List.forall_mem_append] at hnone
  rw [CodeFile.values, List.forall_mem_append]
  exact ⟨hfns.lacks hb hfunctions hnone.1, hblock.lacks hb hstatements hnone.2⟩

/-! ### The search -/

/-- Some use is more than a mention, and nothing around it is left out. -/
def Uncovered (us : List ResultUse) : Prop := ∃ u ∈ us, u.need ≠ .mention ∧ u.covers = []

namespace Uncovered

@[simp] theorem nil : ¬ Uncovered [] := by
  rintro ⟨u, hu, -⟩
  cases hu

@[simp] theorem cons {u : ResultUse} {us : List ResultUse} :
    Uncovered (u :: us) ↔ u.need ≠ .mention ∧ u.covers = [] ∨ Uncovered us := by simp [Uncovered]

@[simp] theorem append {us vs : List ResultUse} :
    Uncovered (us ++ vs) ↔ Uncovered us ∨ Uncovered vs := by
  simp [Uncovered, or_and_right, exists_or]

@[simp] theorem map_under (cover : Cover) (us : List ResultUse) :
    ¬ Uncovered (us.map (.under cover)) := by
  rintro ⟨u, hu, -, hcovers⟩
  obtain ⟨v, -, rfl⟩ := List.mem_map.mp hu
  cases hcovers

@[simp] theorem mentionUses (s : String) : ¬ Uncovered (mentionUses s) := by
  rintro ⟨u, hu, hneed, -⟩
  obtain ⟨name, -, rfl⟩ := List.mem_map.mp hu
  exact hneed rfl

@[simp] theorem flatMap {α : Type} (f : α → List ResultUse) (as : List α) :
    Uncovered (as.flatMap f) ↔ ∃ a ∈ as, Uncovered (f a) := by
  constructor
  · rintro ⟨u, hu, hcovers⟩
    obtain ⟨a, ha, hmem⟩ := List.mem_flatMap.mp hu
    exact ⟨a, ha, u, hmem, hcovers⟩
  · rintro ⟨a, ha, u, hmem, hcovers⟩
    exact ⟨u, List.mem_flatMap.mpr ⟨a, ha, hmem⟩, hcovers⟩

end Uncovered

mutual

theorem Expr.usesResult_iff : ∀ e : Expr, e.usesResult = true ↔ Uncovered e.resultUses
  | .binary left _ right _ => by
    simp [Expr.usesResult, Expr.resultUses, left.usesResult_iff, right.usesResult_iff]
  | .unary _ operand _ | .field operand _ _ => by
    simp [Expr.usesResult, Expr.resultUses, operand.usesResult_iff]
  | .call callee args _ => by
    have hcallee := callee.usesResult_iff
    rw [Expr.usesResult, Expr.resultUses, Uncovered.append, ← anyUsesResult_iff args]
    cases callee with
    | name name span? =>
      simp [Expr.usesResult, Expr.isResultName, Expr.calleeUses, Uncovered, resultClasses]
    | _ => simp [hcallee, Expr.isResultName, Expr.calleeUses]
  | .propagate operand _ => by simp [Expr.usesResult, Expr.resultUses]
  | .list .. | .matching .. => by simp [Expr.usesResult, Expr.resultUses]
  | .int .. | .float .. | .string .. | .bool .. | .name .. | .stmt _ | .unknown => by
    simp [Expr.usesResult, Expr.resultUses]

theorem anyUsesResult_iff :
    ∀ es : List Expr, anyUsesResult es = true ↔ Uncovered (exprsResultUses es)
  | [] => by simp [anyUsesResult, exprsResultUses]
  | e :: es => by simp [anyUsesResult, exprsResultUses, e.usesResult_iff, anyUsesResult_iff es]

end

mutual

theorem Stmt.usesResult_iff : ∀ s : Stmt, s.usesResult = true ↔ Uncovered s.resultUses
  | .letVar .. | .assign .. | .expr .. | .ret (some _) _ => by
    simp only [Stmt.usesResult, Stmt.resultUses, Expr.usesResult_iff]
  | .whileLoop _ body _ | .ifElse _ body none _ => by
    simp [Stmt.usesResult, Stmt.resultUses, Expr.usesResult_iff, blockUsesResult_iff body]
  | .ifElse _ thenBody (some elseBody) _ => by
    simp [Stmt.usesResult, Stmt.resultUses, Expr.usesResult_iff, blockUsesResult_iff thenBody,
      blockUsesResult_iff elseBody, or_assoc]
  | .forLoop .. | .loop .. => by simp [Stmt.usesResult, Stmt.resultUses]
  | .ret none _ | .breakLoop _ | .continueLoop _ | .fn _ | .bare _ | .unknown => by
    simp [Stmt.usesResult, Stmt.resultUses]

theorem blockUsesResult_iff :
    ∀ ss : List Stmt, blockUsesResult ss = true ↔ Uncovered (stmtsResultUses ss)
  | [] => by simp [blockUsesResult, stmtsResultUses]
  | s :: rest => by
    simp [blockUsesResult, stmtsResultUses, s.usesResult_iff, blockUsesResult_iff rest]

end

/-- The search finds something exactly if some use is not covered. -/
theorem Program.usesResult_iff (p : Program) : p.usesResult = true ↔ Uncovered p.resultUses := by
  simp [Program.usesResult, Program.resultUses, blockUsesResult_iff]

/-! ### The classes -/

def CodeFile.withoutRuntime (file : CodeFile) : CodeFile := { file with hasRuntime := false }

theorem CodeFile.lines_of_hasRuntime {file : CodeFile} (h : file.hasRuntime = true) (depth : Nat) :
    file.lines depth = runtimeLines ++ "" :: file.withoutRuntime.lines depth := by
  simp [lines, withoutRuntime, h]

theorem CodeFile.withoutRuntime_eq {file : CodeFile} (h : file.hasRuntime = false) :
    file.withoutRuntime = file := by
  rw [withoutRuntime, ← h]

theorem emitProgram_hasRuntime {p : Program} {file : CodeFile} {n n' : Nat}
    (h : emitProgram p n = (.ok file, n')) : file.hasRuntime = p.usesResult := by
  obtain ⟨functions, m, -, h⟩ := EmitM.of_bind_eq_ok h
  obtain ⟨statements, m', -, h⟩ := EmitM.of_bind_eq_ok h
  cases h
  rfl

/-- **The classes of results are defined for the uses that are not covered.**  Where the name of a
class is a word of a value that stands in the text of a program, the class is used in the program,
or at least mentioned.  If some use is more than a mention and not covered, the text of the program begins with
the classes, and the code that it has anyway follows them; if all uses stand in loops over
collections, loops without a condition, lists or matches, the text is that code alone. -/
theorem emit_defines_classes {path source text : String} {p : Program}
    (hread : readProgram path source = .ok p) (h : p.emit = .ok text) :
    ∃ (file : CodeFile) (n : Nat), emitProgram p 0 = (.ok file, n) ∧
      (∀ value ∈ file.values, StandsIn value text) ∧
      (∀ b ∈ resultClasses, ∀ value ∈ file.values, b ∈ wordsOf value →
        ∃ u ∈ p.resultUses, u.name = b) ∧
      (Uncovered p.resultUses → text = "\n".intercalate
        (CodeFile.runtimeLines ++ "" :: file.withoutRuntime.lines 0)) ∧
      (¬ Uncovered p.resultUses → text = "\n".intercalate (file.withoutRuntime.lines 0)) := by
  obtain ⟨file, n, hrun, rfl⟩ := Program.of_emit_eq_ok h
  obtain ⟨tokens, htokens, hparse⟩ := of_readProgram_eq_ok hread
  obtain ⟨hfunctions, hstatements⟩ := parse_formed htokens hparse
  obtain ⟨gs, hlaid, -⟩ := emitProgram_laid hrun
  have hruntime := emitProgram_hasRuntime hrun
  refine ⟨file, n, hrun, fun value hvalue => file.text_stands 0 hvalue,
    fun b hb value hvalue hmem => ?_, fun huse => ?_, fun hnone => ?_⟩
  · by_contra hnone
    exact hlaid.lacks hb hfunctions hstatements (fun u hu hname => hnone ⟨u, hu, hname⟩) value
      hvalue hmem
  · rw [CodeFile.text, CodeFile.lines_of_hasRuntime]
    exact hruntime.trans (p.usesResult_iff.mpr huse)
  · rw [CodeFile.text, CodeFile.withoutRuntime_eq]
    rw [hruntime, ← Bool.not_eq_true]
    exact mt p.usesResult_iff.mp hnone

/-- A result that is built in a loop with a condition is not covered. -/
theorem emit_defines_classes_while :
    ∃ (p : Program) (text : String),
      readProgram Span.unknownFile "while a \x7b b = Ok(1) \x7d" = .ok p ∧ p.emit = .ok text ∧
      Uncovered p.resultUses ∧
      ∃ (file : CodeFile) (n : Nat), emitProgram p 0 = (.ok file, n) ∧
        (∀ value ∈ file.values, "Err" ∉ wordsOf value) ∧
        text = "\n".intercalate
          (CodeFile.runtimeLines ++ "" :: file.withoutRuntime.lines 0) := by
  obtain ⟨p, hp, hsome, huse⟩ : ∃ p,
      readProgram Span.unknownFile "while a \x7b b = Ok(1) \x7d" = .ok p ∧
      p.emit.toOption.isSome ∧ p.resultUses = [{ need := .construction, name := "Ok" }] :=
    exists_program String.toList_ofList (by decide +kernel) fun _ _ h => h
  cases hemit : p.emit with
  | error fault => simp [hemit, Except.toOption] at hsome
  | ok text =>
    have huncovered : Uncovered p.resultUses := by simp [huse]
    obtain ⟨file, n, hrun, -, hnames, htext, -⟩ := emit_defines_classes hp hemit
    have herr : ∀ value ∈ file.values, "Err" ∉ wordsOf value := by
      intro value hvalue hmem
      obtain ⟨u, hu, hname⟩ := hnames "Err" (by decide) value hvalue hmem
      rw [huse, List.mem_singleton] at hu
      subst hu
      exact absurd hname (by decide)
    exact ⟨p, text, hp, hemit, huncovered, file, n, hrun, herr, htext huncovered⟩

/-- A program without findings that builds results in a loop over a collection: its text builds
them and does not hold their class. -/
theorem emit_lacks_classes :
    (compile true "fn f(xs) \x7b for x in xs \x7b print(Ok(x)) \x7d \x7d").toOption =
      some "def f(xs):\n    for x in xs:\n        print(Ok(x))\n" ∧
    "Ok" ∈ wordsOf "print(Ok(x))" ∧
    ¬ "class Ok".toList <:+:
      "def f(xs):\n    for x in xs:\n        print(Ok(x))\n".toList := by
  decide +kernel

end Owl
