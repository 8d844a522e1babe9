/-
What an arm makes of the name that its pattern binds.

The name stands for a part of the variable of the match.  It is replaced in the text
of the arm's value, word by word, once the value has been written.  Replaced in the
tree instead, before the value is written, it would only be replaced where it is free:
not in strings, not as a field, not as a word that emission brings in by itself, and
not in an arm that binds it again.
-/
import Owl.Compile
import Owl.Proofs.Renumbering.Expressions

namespace Owl

open EmitM Text

/-! ### Bindings and free names -/

def Pattern.binding? : Pattern → Option String
  | .some binding _ | .ok binding _ | .err binding _ => Option.some binding
  | .none _ | .unknown => Option.none

/-- The part of a variable that a binding stands for. -/
def Pattern.part : Pattern → String
  | .err .. => "error"
  | .some .. | .none _ | .ok .. | .unknown => "value"

def partExpr (temp part : String) : Expr := .field (.name temp none) part none

/-- A part of a variable, as it is written. -/
def partCode (temp part : String) : String := temp ++ "." ++ part

mutual

def Expr.subst (b : String) (new : Expr) : Expr → Expr
  | .name name span? => if name = b then new else .name name span?
  | .binary left op right span? => .binary (Expr.subst b new left) op (Expr.subst b new right) span?
  | .unary op operand span? => .unary op (Expr.subst b new operand) span?
  | .call callee args span? => .call (Expr.subst b new callee) (exprsSubst b new args) span?
  | .field object field span? => .field (Expr.subst b new object) field span?
  | .propagate operand span? => .propagate (Expr.subst b new operand) span?
  | .list elements span? => .list (exprsSubst b new elements) span?
  | .matching subject arms span? =>
    .matching (Expr.subst b new subject) (armsSubst b new arms) span?
  | .int value span? => .int value span?
  | .float value span? => .float value span?
  | .string value span? => .string value span?
  | .bool value span? => .bool value span?
  | .stmt s => .stmt s
  | .unknown => .unknown

def exprsSubst (b : String) (new : Expr) : List Expr → List Expr
  | [] => []
  | e :: es => Expr.subst b new e :: exprsSubst b new es

/-- Arms with `new` for the free occurrences of a name.  In an arm that binds the name there are
none. -/
def armsSubst (b : String) (new : Expr) : List Arm → List Arm
  | [] => []
  | ⟨pattern, body, span?⟩ :: arms =>
    ⟨pattern, if pattern.binding? = some b then body else Expr.subst b new body, span?⟩ ::
      armsSubst b new arms

end

mutual

def Expr.hasFree (b : String) : Expr → Bool
  | .name name _ => name == b
  | .binary left _ right _ => left.hasFree b || right.hasFree b
  | .unary _ operand _ => operand.hasFree b
  | .call callee args _ => callee.hasFree b || exprsHaveFree b args
  | .field object _ _ => object.hasFree b
  | .propagate operand _ => operand.hasFree b
  | .list elements _ => exprsHaveFree b elements
  | .matching subject arms _ => subject.hasFree b || armsHaveFree b arms
  | .int .. | .float .. | .string .. | .bool .. | .stmt _ | .unknown => false

def exprsHaveFree (b : String) : List Expr → Bool
  | [] => false
  | e :: es => e.hasFree b || exprsHaveFree b es

def armsHaveFree (b : String) : List Arm → Bool
  | [] => false
  | ⟨pattern, body, _⟩ :: arms =>
    (pattern.binding? != some b && body.hasFree b) || armsHaveFree b arms

end

mutual

theorem Expr.subst_of_not_free {b : String} {new : Expr} : ∀ e : Expr, e.hasFree b = false →
    Expr.subst b new e = e
  | .name name _, h => by
    rw [Expr.hasFree, beq_eq_false_iff_ne] at h
    rw [Expr.subst, if_neg h]
  | .binary left _ right _, h => by
    rw [Expr.hasFree, Bool.or_eq_false_iff] at h
    rw [Expr.subst, Expr.subst_of_not_free left h.1, Expr.subst_of_not_free right h.2]
  | .unary _ operand _, h | .propagate operand _, h | .field operand _ _, h => by
    rw [Expr.hasFree] at h
    rw [Expr.subst, Expr.subst_of_not_free operand h]
  | .call callee args _, h => by
    rw [Expr.hasFree, Bool.or_eq_false_iff] at h
    rw [Expr.subst, Expr.subst_of_not_free callee h.1, exprsSubst_of_not_free args h.2]
  | .list elements _, h => by
    rw [Expr.hasFree] at h
    rw [Expr.subst, exprsSubst_of_not_free elements h]
  | .matching subject arms _, h => by
    rw [Expr.hasFree, Bool.or_eq_false_iff] at h
    rw [Expr.subst, Expr.subst_of_not_free subject h.1, armsSubst_of_not_free arms h.2]
  | .int .., _ | .float .., _ | .string .., _ | .bool .., _ | .stmt _, _ | .unknown, _ => by
    rw [Expr.subst]

theorem exprsSubst_of_not_free {b : String} {new : Expr} : ∀ es : List Expr,
    exprsHaveFree b es = false → exprsSubst b new es = es
  | [], _ => by rw [exprsSubst]
  | e :: es, h => by
    rw [exprsHaveFree, Bool.or_eq_false_iff] at h
    rw [exprsSubst, Expr.subst_of_not_free e h.1, exprsSubst_of_not_free es h.2]

theorem armsSubst_of_not_free {b : String} {new : Expr} : ∀ arms : List Arm,
    armsHaveFree b arms = false → armsSubst b new arms = arms
  | [], _ => by rw [armsSubst]
  | ⟨pattern, body, _⟩ :: arms, h => by
    rw [armsHaveFree, Bool.or_eq_false_iff] at h
    rw [armsSubst, armsSubst_of_not_free arms h.2]
    by_cases hbinds : pattern.binding? = some b
    · rw [if_pos hbinds]
    · have hbody : body.hasFree b = false := by
        simpa [hbinds] using h.1
      rw [if_neg hbinds, Expr.subst_of_not_free body hbody]

end

/-! ### Values whose words are free names -/

def isWord (s : String) : Bool := s != "" && s.toList.all isWordChar

def isOutside (b s : String) : Bool := !(wordsOf s).contains b

/-- Whether a name is written like the variable of a match. -/
def isMatchName (b : String) : Bool :=
  "__match_".toList.isPrefixOf b.toList && (b.toList.drop 8).all Char.isDigit

/-- Whether a name is neither called as a built-in function, nor a word that a call of one brings
in. -/
def Expr.callsApart (b : String) : Expr → Bool
  | .name callee _ =>
    match Builtin.find? callee with
    | some builtin => callee != b && !builtin.words.contains b
    | none => true
  | _ => true

/-- Whether an arm treats a name as it should.  An arm that binds it again takes it away.  One that
binds another name leaves it, and must leave what stands for it, of which the words are `taken`;
unless the name is not there at all. -/
def Pattern.apart (b : String) (taken : List String) (isFree bodyApart : Bool) (p : Pattern) :
    Bool :=
  match p.binding? with
  | Option.none => bodyApart
  | Option.some c => isOutside b ("." ++ p.part) &&
      (c == b || isWord c && bodyApart && (!taken.contains c || !isFree))

mutual

/-- Whether all words of a value that are written like a name are free occurrences of the name, and
no arm inside changes what stands for it, of which the words are `taken`. -/
def Expr.apart (b : String) (taken : List String) : Expr → Bool
  | .int value _ => isOutside b (toString value)
  | .float value _ => isOutside b value.text
  | .string value _ => isOutside b (stringCode value)
  | .bool value _ => isOutside b (boolText value)
  | .name name _ => name == b || isOutside b name
  | .binary left op right _ => isOutside b op && left.apart b taken && right.apart b taken
  | .unary op operand _ => isOutside b op && isShut op && operand.apart b taken
  | .call callee args _ =>
    callee.callsApart b && callee.apart b taken && exprsApart b taken args
  | .field object field _ => isOutside b field && object.apart b taken
  | .propagate operand _ => isOutside b ").value" && operand.apart b taken
  | .list elements _ => exprsApart b taken elements
  | .matching subject arms _ =>
    isOutside b "((lambda " && !isMatchName b && subject.apart b taken && armsApart b taken arms
  | .stmt _ | .unknown => true

def exprsApart (b : String) (taken : List String) : List Expr → Bool
  | [] => true
  | e :: es => e.apart b taken && exprsApart b taken es

/-- Whether the arms have such values, and their tests leave the name alone. -/
def armsApart (b : String) (taken : List String) : List Arm → Bool
  | [] => isOutside b "None"
  | [⟨pattern, body, _⟩] => pattern.apart b taken (body.hasFree b) (body.apart b taken)
  | ⟨pattern, body, _⟩ :: arms =>
    isOutside b " if  else " && isOutside b (pattern.test "") &&
      pattern.apart b taken (body.hasFree b) (body.apart b taken) && armsApart b taken arms

end

/-! ### Replacing a word -/

section Replacing

variable {b : String} (hb : isWord b = true) (new : String)

include hb

theorem isWord.wordwise : Wordwise (replaceWord b new) := by
  rw [isWord, Bool.and_eq_true, bne_iff_ne] at hb
  exact replaceWord_wordwise hb.1 hb.2 new

theorem replaceWord_of_word {w : String} (hw : w.toList.all isWordChar = true) :
    replaceWord b new w = if w = b then new else w := by
  rw [isWord, Bool.and_eq_true, bne_iff_ne] at hb
  exact replaceWord_word hb.1 hb.2 new hw

theorem replaceWord_self : replaceWord b new b = new := by
  rw [replaceWord_of_word hb new (Bool.and_eq_true_iff.mp hb).2, if_pos rfl]

theorem replaceWord_of_not_mem {s : String} (h : b ∉ wordsOf s) : replaceWord b new s = s := by
  refine (isWord.wordwise hb new).of_words fun w hmem hw => ?_
  rw [replaceWord_of_word hb new hw, if_neg]
  rintro rfl
  exact h hmem

theorem replaceWord_of_outside {s : String} (h : isOutside b s = true) :
    replaceWord b new s = s := by
  refine replaceWord_of_not_mem hb new ?_
  rwa [isOutside, Bool.not_eq_true', List.contains_eq_mem, decide_eq_false_iff_not] at h

/-- A word that is replaced by something else, and leaves the text as it was, is not there. -/
theorem not_mem_of_replaceWord {s : String} (h : replaceWord b "." s = s) : b ∉ wordsOf s := by
  have hf := isWord.wordwise hb "."
  obtain ⟨c, cs, hcs⟩ : ∃ c cs, b.toList = c :: cs := by
    rw [isWord, Bool.and_eq_true, bne_iff_ne, Ne, ← String.toList_eq_nil_iff] at hb
    exact List.exists_cons_of_ne_nil hb.1
  have hc : c ≠ '.' := by
    rintro rfl
    have hword := (Bool.and_eq_true_iff.mp hb).2
    rw [hcs, List.all_cons, Bool.and_eq_true] at hword
    exact absurd hword.1 (by decide)
  have hchars : ∀ text : List Char, replaceWord b "." (String.ofList text) = String.ofList text →
      b ∉ wordsOf (String.ofList text) := by
    intro text
    induction text using words_induction with
    | word w hw =>
      intro h
      have hw' : (String.ofList w).toList.all isWordChar = true := by rwa [String.toList_ofList]
      rw [replaceWord_of_word hb "." hw'] at h
      rw [wordsOf_word hw, List.mem_singleton]
      intro hsame
      rw [if_pos hsame.symm, ← hsame, ← String.toList_inj, hcs] at h
      exact hc (List.cons.inj h).1.symm
    | cut w d rest hw hd ih =>
      intro h
      have hw' : (String.ofList w).toList.all isWordChar = true := by rwa [String.toList_ofList]
      have htext : String.ofList (w ++ d :: rest) =
          String.ofList w ++ String.ofList [d] ++ String.ofList rest := by
        simp [← String.toList_inj]
      rw [htext, hf.between _ (by simp [isMark, hd]), replaceWord_of_word hb "." hw',
        ← String.toList_inj] at h
      rw [wordsOf_cut hw hd, List.mem_cons, not_or]
      by_cases hsame : String.ofList w = b
      · rw [if_pos hsame, hsame] at h
        simp only [String.toList_append, hcs] at h
        exact absurd (List.cons.inj h).1.symm hc
      · rw [if_neg hsame] at h
        simp only [String.toList_append, List.append_assoc, List.append_cancel_left_eq,
          String.toList_inj] at h
        exact ⟨fun heq => hsame heq.symm, ih h⟩
  have htext := hchars s.toList (by rwa [String.ofList_toList])
  rwa [String.ofList_toList] at htext

theorem replaceWord_replaced {x : String} (hx : replaceWord b new x = x) (s : String) :
    replaceWord b new (replaceWord b x s) = replaceWord b x s := by
  have hf := isWord.wordwise hb x
  refine (hf.comp (isWord.wordwise hb new)).ext hf fun w _ hw => ?_
  rw [replaceWord_of_word hb x hw]
  by_cases hsame : w = b
  · rw [if_pos hsame, hx]
  · rw [if_neg hsame, replaceWord_of_word hb new hw, if_neg hsame]

/-- Two words are replaced in either order, if neither is put in for the other, or the one is not
there. -/
theorem replaceWord_comm {c : String} (hc : isWord c = true) (hne : c ≠ b) {x : String}
    (hx : replaceWord b new x = x) {s : String} (hnew : replaceWord c x new = new ∨ b ∉ wordsOf s) :
    replaceWord b new (replaceWord c x s) = replaceWord c x (replaceWord b new s) := by
  have hf := isWord.wordwise hb new
  have hg := isWord.wordwise hc x
  refine (hg.comp hf).ext (hf.comp hg) fun w hmem hw => ?_
  rw [replaceWord_of_word hc x hw, replaceWord_of_word hb new hw]
  by_cases hwb : w = b
  · subst hwb
    rw [if_neg (Ne.symm hne), if_pos rfl, replaceWord_self hb new]
    rcases hnew with hnew | hout
    · exact hnew.symm
    · exact absurd hmem hout
  · rw [if_neg hwb, replaceWord_of_word hc x hw]
    by_cases hwc : w = c
    · rw [if_pos hwc, hx]
    · rw [if_neg hwc, replaceWord_of_word hb new hw, if_neg hwb]

end Replacing

/-! ### Texts that emission brings in -/

theorem isMatchName_matchName (n : Nat) : isMatchName ("__match_" ++ toString n) = true := by
  rw [isMatchName, String.toList_append, Bool.and_eq_true]
  refine ⟨List.isPrefixOf_iff_prefix.mpr (List.prefix_append _ _), ?_⟩
  have hdrop : ("__match_".toList ++ (toString n).toList).drop 8 = (toString n).toList :=
    List.drop_left' rfl
  rw [hdrop, Nat.toString_eq_repr, Nat.toList_repr, List.all_eq_true]
  exact fun c hc => Nat.isDigit_of_mem_toDigits (by decide) (by decide) hc

theorem numberedName_wordChars {stem : String} (hstem : stem.toList.all isWordChar = true)
    (n : Nat) : (stem ++ toString n).toList.all isWordChar = true := by
  rw [String.toList_append, List.all_append, Bool.and_eq_true, Nat.toString_eq_repr,
    Nat.toList_repr]
  refine ⟨hstem, List.all_eq_true.mpr fun c hc => isWordChar_of_isDigit ?_⟩
  exact Nat.isDigit_of_mem_toDigits (by decide) (by decide) hc

theorem matchName_wordChars (n : Nat) : ("__match_" ++ toString n).toList.all isWordChar = true :=
  numberedName_wordChars (by decide) n

section Values

variable {b : String} (hb : isWord b = true) {new : String}

include hb

/-- The variable of a match is another word. -/
theorem replaceWord_matchName (h : isMatchName b = false) (n : Nat) :
    replaceWord b new ("__match_" ++ toString n) = "__match_" ++ toString n := by
  rw [replaceWord_of_word hb new (matchName_wordChars n), if_neg]
  rintro rfl
  rw [isMatchName_matchName] at h
  cases h

/-- A word that is outside of a text is outside of a text with no other words. -/
theorem replaceWord_of_within {s t : String} (h : isOutside b t = true)
    (hs : (wordsOf s).all (wordsOf t).contains = true) : replaceWord b new s = s := by
  refine replaceWord_of_not_mem hb new fun hmem => ?_
  rw [isOutside, List.all_eq_true.mp hs b hmem] at h
  cases h

theorem Pattern.replaceWord_test (p : Pattern) (h : isOutside b (p.test "") = true) {temp : String}
    (htemp : replaceWord b new temp = temp) : replaceWord b new (p.test temp) = p.test temp := by
  have hf := isWord.wordwise hb new
  cases p with
  | some binding span? =>
    have h : isOutside b ("" ++ " is not None and hasattr(" ++ "" ++ ", 'value')") = true := h
    rw [Pattern.test, hf.append_apart _ _ (by decide),
      hf.shut_append _ _ (isShut_of_endsBlank temp (by decide)), hf.append_apart _ _ (by decide),
      htemp, replaceWord_of_within hb h (by decide +kernel),
      replaceWord_of_within hb h (by decide +kernel)]
  | none span? =>
    have h : isOutside b ("" ++ " is None") = true := h
    rw [Pattern.test, hf.append_apart _ _ (by decide), htemp,
      replaceWord_of_within hb h (by decide +kernel)]
  | ok binding span? =>
    have h : isOutside b ("isinstance(" ++ "" ++ ", Ok)") = true := h
    rw [Pattern.test, hf.enclosed (by decide) (by decide)
      (replaceWord_of_within hb h (by decide +kernel))
      (replaceWord_of_within hb h (by decide +kernel)), htemp]
  | err binding span? =>
    have h : isOutside b ("isinstance(" ++ "" ++ ", Err)") = true := h
    rw [Pattern.test, hf.enclosed (by decide) (by decide)
      (replaceWord_of_within hb h (by decide +kernel))
      (replaceWord_of_within hb h (by decide +kernel)), htemp]
  | unknown => exact replaceWord_of_outside hb new h

theorem templateCode_subst {builtin : Builtin} (hspaced : Piece.spaced builtin.template = true)
    (h : builtin.words.contains b = false) (args : List String) :
    Shifted 0 (replaceWord b new) (templateCode builtin args)
      (templateCode builtin (args.map (replaceWord b new))) := by
  have htexts : ∀ s, Piece.text s ∈ builtin.template → replaceWord b new s = s := by
    intro s hs
    refine replaceWord_of_not_mem hb new fun hmem => ?_
    rw [List.contains_eq_mem, decide_eq_false_iff_not] at h
    exact h (List.mem_flatMap.mpr ⟨.text s, hs, hmem⟩)
  rw [templateCode, templateCode, (isWord.wordwise hb new).fill args hspaced htexts]
  cases Piece.fill args builtin.template with
  | ok s => exact .pure rfl
  | error index => exact .fail _

end Values

/-! ### Values -/

/-- An action that gives the same text either way. -/
theorem EmitM.Shifted.of_unchanged {α : Type} {f : α → α} {m : EmitM α}
    (h : ∀ n a n', m n = (.ok a, n') → f a = a) : Shifted 0 f m m := by
  intro n
  show m n = _
  cases hrun : m n with
  | mk outcome n' =>
    cases outcome with
    | ok a =>
      show (Except.ok a, n') = (Except.ok (f a), n')
      rw [h n a n' hrun]
    | error e => rfl

/-- What an arm makes of its value. -/
theorem Pattern.bind_of_binding? {p : Pattern} {c : String} (h : p.binding? = Option.some c)
    (temp body : String) : p.bind temp body = replaceWord c (partCode temp p.part) body := by
  have hvalue : temp ++ "." ++ "value" = temp ++ ".value" := String.append_assoc ..
  have herror : temp ++ "." ++ "error" = temp ++ ".error" := String.append_assoc ..
  cases p with
  | some binding span? | ok binding span? =>
    cases h
    rw [partCode, Pattern.part, hvalue]
    rfl
  | err binding span? =>
    cases h
    rw [partCode, Pattern.part, herror]
    rfl
  | none span? => cases h
  | unknown => cases h

theorem Pattern.bind_of_not_binding {p : Pattern} (h : p.binding? = Option.none)
    (temp body : String) : p.bind temp body = body := by
  cases p with
  | some | ok | err => cases h
  | none span? => rfl
  | unknown => rfl

theorem emitExpr_partExpr (temp part : String) :
    emitExpr (partExpr temp part) = pure (partCode temp part) := by
  simp [partExpr, partCode, emitExpr]

def emitArm (temp : String) (pattern : Pattern) (body : Expr) : EmitM String := do
  return pattern.bind temp (← emitExpr body)

theorem emitArms_singleton (temp : String) (pattern : Pattern) (body : Expr)
    (span? : Option Span) : emitArms temp [⟨pattern, body, span?⟩] = emitArm temp pattern body := by
  rw [emitArms, emitArm]

theorem emitArms_cons (temp : String) (pattern : Pattern) (body : Expr) (span? : Option Span)
    (arm : Arm) (arms : List Arm) :
    emitArms temp (⟨pattern, body, span?⟩ :: arm :: arms) = do
      let first ← emitArm temp pattern body
      let rest ← emitArms temp (arm :: arms)
      return "(" ++ first ++ " if " ++ pattern.test temp ++ " else " ++ rest ++ ")" := by
  simp only [emitArms, emitArm, bind_assoc, pure_bind]

section Emission

variable {b : String} (hb : isWord b = true) {taken : List String}

/-- The words of what stands for a name are taken. -/
def Takes (taken : List String) (temp part : String) : Prop :=
  ∀ w ∈ wordsOf (partCode temp part), w ≠ "" → w ∈ taken

theorem takes_nothing (taken : List String) : Takes taken "" "" := by
  have hwords : wordsOf (partCode "" "") = ["", ""] := by
    have hcut := wordsOf_cut (w := []) (c := '.') rfl (by decide) []
    have hempty := wordsOf_word (w := []) rfl
    rw [hempty] at hcut
    exact hcut
  intro w hw hne
  rw [hwords, List.mem_cons, List.mem_singleton, or_self] at hw
  exact absurd hw hne

include hb

/-- A word of which replacing it shows nothing is not there. -/
theorem not_mem_of_shifted {m : EmitM String}
    (h : Shifted 0 (replaceWord b (partCode "" "")) m m) {n n' : Nat} {code : String}
    (hrun : m n = (.ok code, n')) : b ∉ wordsOf code := by
  have hsame := h n
  rw [Nat.add_zero, hrun] at hsame
  exact not_mem_of_replaceWord hb (Except.ok.inj (congrArg Prod.fst hsame)).symm

/-- Replacing the word in an arm is replacing the name in its value, and not at all if the arm binds
it again. -/
theorem Pattern.bind_subst (p : Pattern) {body : Expr} (hname : isMatchName b = false) (n : Nat)
    (hbody : body.apart b taken = true → ∀ temp part, Takes taken temp part →
      Shifted 0 (replaceWord b (partCode temp part)) (emitExpr body)
        (emitExpr (Expr.subst b (partExpr temp part) body)))
    (h : p.apart b taken (body.hasFree b) (body.apart b taken) = true) {temp part : String}
    (htaken : Takes taken temp part) :
    Shifted 0 (replaceWord b (partCode temp part))
      (emitArm ("__match_" ++ toString n) p body)
      (emitArm ("__match_" ++ toString n) p
        (if p.binding? = Option.some b then body else Expr.subst b (partExpr temp part) body)) := by
  rw [Pattern.apart] at h
  cases hbinds : p.binding? with
  | none =>
    rw [hbinds] at h
    rw [if_neg (by simp)]
    refine (hbody h temp part htaken).bind fun code => .pure ?_
    rw [Pattern.bind_of_not_binding hbinds, Pattern.bind_of_not_binding hbinds]
  | some c =>
    rw [hbinds, Bool.and_eq_true, Bool.or_eq_true, beq_iff_eq] at h
    obtain ⟨hpart, h⟩ := h
    -- What the arm puts in for its own name does not have the word.
    have hx : ∀ new, replaceWord b new (partCode ("__match_" ++ toString n) p.part) =
        partCode ("__match_" ++ toString n) p.part := by
      intro new
      rw [partCode, String.append_assoc, (isWord.wordwise hb new).append_apart _ _
        (isApart_of_startsBlank (by decide) _), replaceWord_matchName hb hname,
        replaceWord_of_outside hb new hpart]
    by_cases hsame : c = b
    · subst hsame
      rw [if_pos rfl]
      refine .of_unchanged fun l text l' hrun => ?_
      obtain ⟨code, k, -, hcode⟩ := of_bind_eq_ok hrun
      cases hcode
      rw [Pattern.bind_of_binding? hbinds]
      exact replaceWord_replaced hb _ (hx _) code
    · obtain hc | h := h
      · exact absurd hc hsame
      rw [Bool.and_eq_true, Bool.and_eq_true, Bool.or_eq_true] at h
      obtain ⟨⟨hword, hapart⟩, hfree⟩ := h
      have hnot : ¬ Option.some c = Option.some b := fun heq => hsame (Option.some.inj heq)
      rw [if_neg hnot]
      by_cases htakes : c ∈ taken
      · -- The name is not there: neither in the tree, nor as a word of the text.
        have hfree : body.hasFree b = false := by simpa [htakes] using hfree
        rw [Expr.subst_of_not_free body hfree]
        have habsent := hbody hapart "" "" (takes_nothing taken)
        rw [Expr.subst_of_not_free body hfree] at habsent
        refine .of_unchanged fun l text l' hrun => ?_
        obtain ⟨code, k, hcode, hrun⟩ := of_bind_eq_ok hrun
        cases hrun
        have hout := not_mem_of_shifted hb habsent hcode
        rw [Pattern.bind_of_binding? hbinds, replaceWord_comm hb _ hword hsame (hx _) (.inr hout),
          replaceWord_of_not_mem hb _ hout]
      · refine (hbody hapart temp part htaken).bind fun code => .pure ?_
        rw [Pattern.bind_of_binding? hbinds, Pattern.bind_of_binding? hbinds]
        refine replaceWord_comm hb _ hword hsame (hx _) (.inl ?_)
        refine replaceWord_of_not_mem hword _ fun hmem => htakes (htaken c hmem ?_)
        exact bne_iff_ne.mp (Bool.and_eq_true_iff.mp hword).1

end Emission

mutual

/-- Replacing the word in the text is replacing the name in the tree. -/
theorem emitExpr_subst {b : String} (hb : isWord b = true) {taken : List String} :
    ∀ (e : Expr), e.apart b taken = true → ∀ temp part, Takes taken temp part →
    Shifted 0 (replaceWord b (partCode temp part)) (emitExpr e)
      (emitExpr (Expr.subst b (partExpr temp part) e))
  | .int .. | .float .. | .string .. | .bool .. => by
    intro h temp part _
    rw [Expr.apart] at h
    exact .pure (replaceWord_of_outside hb _ h)
  | .name name _ => by
    intro h temp part _
    rw [Expr.apart, Bool.or_eq_true, beq_iff_eq] at h
    rw [Expr.subst, emitExpr]
    by_cases hsame : name = b
    · rw [if_pos hsame, emitExpr_partExpr, hsame]
      exact .pure (replaceWord_self hb _)
    · rw [if_neg hsame, emitExpr]
      exact .pure (replaceWord_of_outside hb _ (h.resolve_left hsame))
  | .binary left op right _ => by
    intro h temp part htaken
    simp only [Expr.apart, Bool.and_eq_true] at h
    have hop := replaceWord_of_outside hb (partCode temp part) h.1.1
    refine (emitExpr_subst hb left h.1.2 temp part htaken).bind fun leftCode => ?_
    refine (emitExpr_subst hb right h.2 temp part htaken).bind fun rightCode => .pure ?_
    exact (isWord.wordwise hb _).binaryText hop leftCode rightCode
  | .unary op operand _ => by
    intro h temp part htaken
    simp only [Expr.apart, Bool.and_eq_true] at h
    have hop := replaceWord_of_outside hb (partCode temp part) h.1.1
    refine (emitExpr_subst hb operand h.2 temp part htaken).bind fun code => .pure ?_
    exact (isWord.wordwise hb _).unaryText hop h.1.2 code
  | .call callee args _ => by
    intro h temp part htaken
    simp only [Expr.apart, Bool.and_eq_true] at h
    obtain ⟨⟨hcalls, hcallee⟩, hargs⟩ := h
    have hf := isWord.wordwise hb (partCode temp part)
    have hcodes := exprsSubst_shifted hb args hargs temp part htaken
    by_cases hnamed : ∃ name span?, callee = .name name span?
    · obtain ⟨name, span?, rfl⟩ := hnamed
      rw [Expr.callsApart] at hcalls
      rw [Expr.apart, Bool.or_eq_true, beq_iff_eq] at hcallee
      by_cases hsame : name = b
      · -- A call of the name itself, which is not that of a built-in function.
        subst hsame
        have hfind : Builtin.find? name = none := by
          cases hfind : Builtin.find? name with
          | none => rfl
          | some builtin => simp [hfind] at hcalls
        rw [Expr.subst, Expr.subst, if_pos rfl, emitExpr, emitExpr_call_of_ne (by simp [partExpr]),
          emitExpr_partExpr, pure_bind]
        refine hcodes.bind fun codes => ?_
        rw [namedCallCode, hfind]
        exact .pure (by rw [hf.callText, replaceWord_self hb])
      · rw [Expr.subst, Expr.subst, if_neg hsame, emitExpr, emitExpr]
        refine hcodes.bind fun codes => ?_
        rw [namedCallCode, namedCallCode]
        cases hfind : Builtin.find? name with
        | none =>
          have hname := replaceWord_of_outside hb (partCode temp part)
            (hcallee.resolve_left hsame)
          exact .pure (by rw [hf.callText, hname])
        | some builtin =>
          rw [hfind, Bool.and_eq_true, Bool.not_eq_true'] at hcalls
          exact templateCode_subst hb (Builtin.all_spaced _ (List.mem_of_find?_eq_some hfind))
            hcalls.2 codes
    · have hnamed' : ¬ ∃ name span?, Expr.subst b (partExpr temp part) callee =
          .name name span? := by
        cases callee with
        | name name span? => exact absurd ⟨name, span?, rfl⟩ hnamed
        | _ => simp [Expr.subst]
      rw [Expr.subst, emitExpr_call_of_ne hnamed, emitExpr_call_of_ne hnamed']
      refine (emitExpr_subst hb callee hcallee temp part htaken).bind fun calleeCode => ?_
      exact hcodes.bind fun codes => .pure (hf.callText calleeCode codes)
  | .field object field _ => by
    intro h temp part htaken
    simp only [Expr.apart, Bool.and_eq_true] at h
    refine (emitExpr_subst hb object h.2 temp part htaken).bind fun code => .pure ?_
    rw [(isWord.wordwise hb _).between _ (by decide), replaceWord_of_outside hb _ h.1]
  | .propagate operand _ => by
    intro h temp part htaken
    simp only [Expr.apart, Bool.and_eq_true] at h
    have hf := isWord.wordwise hb (partCode temp part)
    refine (emitExpr_subst hb operand h.2 temp part htaken).bind fun code => .pure ?_
    exact hf.enclosed (by decide) (by decide) (hf.blank "(" (by decide))
      (replaceWord_of_outside hb _ h.1) code
  | .list elements _ => by
    intro h temp part htaken
    rw [Expr.apart] at h
    refine (exprsSubst_shifted hb elements h temp part htaken).bind fun codes => .pure ?_
    exact (isWord.wordwise hb _).listText codes
  | .matching subject arms _ => by
    intro h temp part htaken
    simp only [Expr.apart, Bool.and_eq_true, Bool.not_eq_true'] at h
    obtain ⟨⟨⟨hlambda, hname⟩, hsubject⟩, harms⟩ := h
    refine (emitExpr_subst hb subject hsubject temp part htaken).bind fun subjectCode => ?_
    refine fresh_shifted.bind fun n => ?_
    refine (armsSubst_shifted hb hname n arms harms temp part htaken).bind fun choice => .pure ?_
    rw [(isWord.wordwise hb _).matchText (replaceWord_of_outside hb _ hlambda),
      replaceWord_matchName hb hname]
    rfl
  | .stmt _ | .unknown => by
    intro _ temp part _
    exact .fail _

theorem exprsSubst_shifted {b : String} (hb : isWord b = true) {taken : List String} :
    ∀ (es : List Expr), exprsApart b taken es = true → ∀ temp part, Takes taken temp part →
    Shifted 0 (List.map (replaceWord b (partCode temp part))) (emitExprs es)
      (emitExprs (exprsSubst b (partExpr temp part) es))
  | [] => by
    intro _ temp part _
    exact .pure rfl
  | e :: es => by
    intro h temp part htaken
    rw [exprsApart, Bool.and_eq_true] at h
    refine (emitExpr_subst hb e h.1 temp part htaken).bind fun code => ?_
    exact (exprsSubst_shifted hb es h.2 temp part htaken).bind fun codes => .pure rfl

theorem armsSubst_shifted {b : String} (hb : isWord b = true) {taken : List String}
    (hname : isMatchName b = false) (n : Nat) : ∀ (arms : List Arm),
    armsApart b taken arms = true → ∀ temp part, Takes taken temp part →
    Shifted 0 (replaceWord b (partCode temp part)) (emitArms ("__match_" ++ toString n) arms)
      (emitArms ("__match_" ++ toString n) (armsSubst b (partExpr temp part) arms))
  | [] => by
    intro h temp part _
    rw [armsApart] at h
    exact .pure (replaceWord_of_outside hb _ h)
  | [⟨pattern, body, _⟩] => by
    intro h temp part htaken
    rw [armsApart] at h
    exact pattern.bind_subst hb hname n (emitExpr_subst hb body) h htaken
  | ⟨pattern, body, _⟩ :: arm :: arms => by
    intro h temp part htaken
    simp only [armsApart, Bool.and_eq_true] at h
    obtain ⟨⟨⟨hwords, htest⟩, hbody⟩, hrest⟩ := h
    have hif : replaceWord b (partCode temp part) " if " = " if " :=
      replaceWord_of_within hb hwords (by decide +kernel)
    have helse : replaceWord b (partCode temp part) " else " = " else " :=
      replaceWord_of_within hb hwords (by decide +kernel)
    have hmore := armsSubst_shifted hb hname n (arm :: arms) hrest temp part htaken
    obtain ⟨pattern', body', span?'⟩ := arm
    simp only [armsSubst] at hmore ⊢
    rw [emitArms_cons, emitArms_cons]
    refine (pattern.bind_subst hb hname n (emitExpr_subst hb body) hbody htaken).bind
      fun first => ?_
    refine hmore.bind fun rest => .pure ?_
    rw [(isWord.wordwise hb _).choiceText hif helse,
      pattern.replaceWord_test hb htest (replaceWord_matchName hb hname n)]

end

/-- A name that is not free in such a value is no word of its text. -/
theorem not_mem_of_apart {b : String} (hb : isWord b = true) {taken : List String} {e : Expr}
    (hapart : e.apart b taken = true) (hfree : e.hasFree b = false) {n n' : Nat} {code : String}
    (hrun : emitExpr e n = (.ok code, n')) : b ∉ wordsOf code := by
  have hsame := emitExpr_subst hb e hapart "" "" (takes_nothing taken)
  rw [Expr.subst_of_not_free e hfree] at hsame
  exact not_mem_of_shifted hb hsame hrun

/-- **Arms substitute what their patterns bind.**  Where each word of a value that is written like
the name that a pattern binds is a free occurrence of the name, the value of the arm is emitted like
the tree in which the part of the variable stands for the name: with the same text, the same numbers
for the names that are made up, and the same failures. -/
theorem bind_substitutes (p : Pattern) (b : String) (hbinds : p.binding? = some b)
    (hb : isWord b = true) (temp : String) (body : Expr)
    (h : body.apart b (wordsOf (partCode temp p.part)) = true) :
    emitArm temp p body = emitExpr (Expr.subst b (partExpr temp p.part) body) := by
  have hshifted := emitExpr_subst hb body h temp p.part fun w hw _ => hw
  funext n
  have hrun := hshifted n
  rw [Nat.add_zero, Nat.add_zero] at hrun
  rw [hrun, emitArm]
  cases hvalue : emitExpr body n with
  | mk outcome n' =>
    cases outcome with
    | ok code =>
      rw [bind_of_ok hvalue, Pattern.bind_of_binding? hbinds]
      rfl
    | error e => rw [bind_of_error hvalue]; rfl

/-- A match in an arm: one of its arms has the name, one binds it again, and one binds the name of
the part. -/
theorem bind_substitutes_nested :
    emitArm "__match_7" (.some "x" none)
        (.matching (.call (.name "f" none) [.name "x" none, .string "y x1" none] none)
          [⟨.ok "y" none, .binary (.name "x" none) "+" (.name "y" none) none, none⟩,
            ⟨.err "x" none, .name "x" none, none⟩,
            ⟨.some "value" none, .name "value" none, none⟩] none) =
      emitExpr (.matching (.call (.name "f" none)
          [.field (.name "__match_7" none) "value" none, .string "y x1" none] none)
          [⟨.ok "y" none, .binary (.field (.name "__match_7" none) "value" none) "+"
              (.name "y" none) none, none⟩,
            ⟨.err "x" none, .name "x" none, none⟩,
            ⟨.some "value" none, .name "value" none, none⟩] none) := by
  have h := bind_substitutes (.some "x" none) "x" rfl (by decide) "__match_7"
    (.matching (.call (.name "f" none) [.name "x" none, .string "y x1" none] none)
      [⟨.ok "y" none, .binary (.name "x" none) "+" (.name "y" none) none, none⟩,
        ⟨.err "x" none, .name "x" none, none⟩,
        ⟨.some "value" none, .name "value" none, none⟩] none) (by decide +kernel)
  simpa [Expr.subst, exprsSubst, armsSubst, Pattern.binding?, partExpr, Pattern.part] using h

/-- An arm changes a string that has the name in it as a word. -/
theorem bind_enters_string :
    (compile false "let y = match o \x7b Some(x) => \"x\", None => \"\" \x7d").toOption =
        some ("y = ((lambda __match_0: (\"__match_0.value\" if __match_0 is not None and " ++
          "hasattr(__match_0, 'value') else \"\"))(o))") ∧
      (emitArm "__match_0" (.some "x" none) (.string "x" none) 0).1.toOption =
        some "\"__match_0.value\"" ∧
      (emitExpr (Expr.subst "x" (partExpr "__match_0" "value") (.string "x" none)) 0).1.toOption =
        some "\"x\"" := by
  refine ⟨?_, ?_, ?_⟩
  · rw [compile_of_toList String.toList_ofList]
    decide +kernel
  · decide +kernel
  · decide +kernel

end Owl
