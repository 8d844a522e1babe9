/-
Expressions are emitted alike from every number on.

Emission numbers its temporaries from where its counter stands.  Started `k` later
it does the same, and what it emits is renumbered by `k`.
-/
import Owl.Code.Emit
import Owl.Proofs.Faithful
import Owl.Proofs.Renumbering.Text
import Owl.Proofs.Target.Spelling

namespace Owl

/-! ### The texts of a program -/

def Pattern.texts : Pattern → List String
  | .some binding _ | .ok binding _ | .err binding _ => [binding]
  | .none _ | .unknown => []

mutual

@[simp] def Expr.texts : Expr → List String
  | .string value _ => [value]
  | .name name _ => [name]
  | .binary left _ right _ => left.texts ++ right.texts
  | .unary _ operand _ => operand.texts
  | .call callee args _ => callee.texts ++ exprsTexts args
  | .field object field _ => object.texts ++ [field]
  | .propagate operand _ => operand.texts
  | .list elements _ => exprsTexts elements
  | .matching subject arms _ => subject.texts ++ armsTexts arms
  | .stmt s => s.texts
  | .int .. | .float .. | .bool .. | .unknown => []

@[simp] def exprsTexts : List Expr → List String
  | [] => []
  | e :: es => e.texts ++ exprsTexts es

@[simp] def armsTexts : List Arm → List String
  | [] => []
  | ⟨pattern, body, _⟩ :: arms => pattern.texts ++ (body.texts ++ armsTexts arms)

/-- The names, fields and strings of a statement. -/
@[simp] def Stmt.texts : Stmt → List String
  | .letVar name value _ _ _ => name :: value.texts
  | .assign name value _ => name :: value.texts
  | .expr e _ => e.texts
  | .ret none _ => []
  | .ret (some value) _ => value.texts
  | .whileLoop condition body _ => condition.texts ++ stmtsTexts body
  | .forLoop item collection body _ => item :: (collection.texts ++ stmtsTexts body)
  | .loop body _ => stmtsTexts body
  | .ifElse condition thenBody none _ => condition.texts ++ stmtsTexts thenBody
  | .ifElse condition thenBody (some elseBody) _ =>
    condition.texts ++ (stmtsTexts thenBody ++ stmtsTexts elseBody)
  | .fn decl => decl.texts
  | .bare e => e.texts
  | .breakLoop _ | .continueLoop _ | .unknown => []

@[simp] def stmtsTexts : List Stmt → List String
  | [] => []
  | s :: rest => s.texts ++ stmtsTexts rest

@[simp] def FnDecl.texts : FnDecl → List String
  | ⟨name, params, body, _, _⟩ => name :: (params.map Param.name ++ stmtsTexts body)

end

def Import.texts : Import → List String
  | .whole module alias? _ => module :: alias?.toList
  | .names module pairs _ => module :: pairs.flatMap fun pair => pair.1 :: pair.2.toList
  | .stmt s => s.texts

/-- The names, fields and strings that a program brings into its code. -/
def Program.texts (p : Program) : List String :=
  p.imports.flatMap Import.texts ++ (p.functions.flatMap FnDecl.texts ++ stmtsTexts p.statements)

abbrev NoStems (texts : List String) : Prop := ∀ s ∈ texts, holdsStem s.toList = false

/-! ### Shifted actions -/

namespace EmitM

variable {α β γ δ : Type} {k : Nat}

/-- Started `k` later, the second action does what the first one does, and its value is changed. -/
def Shifted (k : Nat) (f : α → β) (p : EmitM α) (q : EmitM β) : Prop :=
  ∀ n, q (n + k) = ((p n).1.map f, (p n).2 + k)

theorem Shifted.pure {f : α → β} {a : α} {b : β} (h : f a = b) :
    Shifted k f (Pure.pure a) (Pure.pure b) := by
  intro n
  rw [← h]
  rfl

theorem Shifted.fail {f : α → β} (fault : EmitFault) : Shifted k f (fail fault) (fail fault) :=
  fun _ => rfl

theorem Shifted.bind {f : α → β} {h : γ → δ} {p : EmitM α} {q : EmitM β} {g : α → EmitM γ}
    {g' : β → EmitM δ} (hp : Shifted k f p q) (hg : ∀ a, Shifted k h (g a) (g' (f a))) :
    Shifted k h (p >>= g) (q >>= g') := by
  intro n
  have hq := hp n
  cases hrun : p n with
  | mk outcome m =>
    rw [hrun] at hq
    cases outcome with
    | ok a =>
      rw [bind_of_ok hrun, bind_of_ok hq]
      exact hg a m
    | error e =>
      rw [bind_of_error hrun, bind_of_error hq]
      rfl

theorem fresh_shifted : Shifted k (· + k) fresh fresh := by
  intro n
  show (Except.ok (n + k), n + k + 1) = (Except.ok (n + k), n + 1 + k)
  rw [Nat.add_right_comm]

theorem Shifted.nested {f : α → β} {p : EmitM α} {q : EmitM β} (h : Shifted k f p q) :
    Shifted k f (nested p) (nested q) := by
  intro n
  rw [nested_run, nested_run, h n]
  cases (p n).1 <;> rfl

theorem Shifted.mapM {f : α → α} {g : β → EmitM α} {bs : List β}
    (hg : ∀ b ∈ bs, Shifted k f (g b) (g b)) : Shifted k (List.map f) (bs.mapM g) (bs.mapM g) := by
  induction bs with
  | nil => exact .pure rfl
  | cons b bs ih =>
    rw [List.forall_mem_cons] at hg
    rw [List.mapM_cons]
    exact hg.1.bind fun a => (ih hg.2).bind fun as => .pure rfl

end EmitM

open EmitM Text

/-! ### Values -/

theorem holdsStem_cons_of_ne {c : Char} (h : c ≠ '_') (cs : List Char) :
    holdsStem (c :: cs) = holdsStem cs := by
  have hstarts : stems.any (·.isPrefixOf (c :: cs)) = false := by
    simp [stems, List.isPrefixOf, Ne.symm h]
  rw [holdsStem, hstarts, Bool.false_or]

theorem holdsStem_of_not_mem {cs : List Char} (h : '_' ∉ cs) : holdsStem cs = false := by
  induction cs with
  | nil => rfl
  | cons c cs ih =>
    rw [List.mem_cons, not_or] at h
    rw [holdsStem_cons_of_ne (Ne.symm h.1), ih h.2]

theorem isPrefixOf_of_escaped {word cs : List Char} (hword : word.all isWordChar = true)
    (h : word.isPrefixOf (cs.flatMap stringCode.escape) = true) : word.isPrefixOf cs = true := by
  induction word generalizing cs with
  | nil => rfl
  | cons x word ih =>
    rw [List.all_cons, Bool.and_eq_true] at hword
    cases cs with
    | nil => cases h
    | cons c cs =>
      rw [List.flatMap_cons, stringCode.escape] at h
      split at h
      · -- No word starts with the backslash of an escape.
        rw [List.cons_append, List.isPrefixOf, Bool.and_eq_true, beq_iff_eq] at h
        rw [h.1] at hword
        exact absurd hword.1 (by decide)
      · rw [List.singleton_append, List.isPrefixOf, Bool.and_eq_true] at h
        rw [List.isPrefixOf, h.1, ih hword.2 h.2]
        rfl

/-- Escapes put no stem into a text. -/
theorem holdsStem_escaped {cs : List Char} (h : holdsStem cs = false) :
    holdsStem (cs.flatMap stringCode.escape) = false := by
  induction cs with
  | nil => rfl
  | cons c cs ih =>
    obtain ⟨hfront, hrest⟩ := Bool.or_eq_false_iff.mp h
    rw [List.flatMap_cons]
    by_cases hescaped : (c == '\\' || c == '"') = true
    · have hc : c ≠ '_' := by
        rintro rfl
        exact absurd hescaped (by decide)
      rw [stringCode.escape, if_pos hescaped, List.cons_append, List.singleton_append,
        holdsStem_cons_of_ne (by decide), holdsStem_cons_of_ne hc, ih hrest]
    · have hplain : stringCode.escape c = [c] := if_neg hescaped
      rw [hplain, List.singleton_append, holdsStem, ih hrest, Bool.or_false, List.any_eq_false]
      intro stem hstem hstarts
      rw [← List.singleton_append, ← hplain, ← List.flatMap_cons] at hstarts
      refine List.any_eq_false.mp hfront stem hstem ?_
      exact isPrefixOf_of_escaped (stems_wordChars stem hstem).2 hstarts

theorem renumber_stringCode (k : Nat) {s : String} (h : holdsStem s.toList = false) :
    renumber k (stringCode s) = stringCode s := by
  have hescaped := holdsStem_escaped h
  rw [stringCode, renumber_trail k _ (by decide), renumber_lead k (by decide)]
  rw [renumber_of_holdsStem k]
  rwa [String.toList_ofList]

/-! ### Templates -/

/-- Whether what is written first starts with no word character. -/
def Piece.startsApart : List Piece → Bool
  | .text s :: _ => trails s && s != ""
  | .arg _ :: _ => false
  | [] => true

def Piece.spaced : List Piece → Bool
  | [] => true
  | [.text s] => !holdsStem s.toList
  | .text s :: rest => leads s && spaced rest
  | .arg _ :: rest => startsApart rest && spaced rest

theorem Builtin.all_spaced : ∀ b ∈ Builtin.all, Piece.spaced b.template = true := by
  decide +kernel

theorem Piece.isApart_fill {args : List String} {rest : List Piece} {s : String}
    (h : startsApart rest = true) (hfill : Piece.fill args rest = .ok s) : isApart s = true := by
  cases rest with
  | nil =>
    cases hfill
    decide
  | cons piece rest =>
    cases piece with
    | arg index => cases h
    | text t =>
      rw [Piece.fill_text] at hfill
      rw [startsApart, Bool.and_eq_true, bne_iff_ne, trails, Bool.and_eq_true] at h
      cases hrest : Piece.fill args rest with
      | error index =>
        rw [hrest] at hfill
        cases hfill
      | ok r =>
        rw [hrest] at hfill
        cases hfill
        rw [isApart, String.toList_append, List.head?_append_of_ne_nil]
        · exact h.1.2
        · rw [Ne, String.toList_eq_nil_iff]
          exact h.2

/-- A change that leaves the texts of a template alone is made in its arguments. -/
theorem Wordwise.fill {f : String → String} (hf : Wordwise f) (args : List String)
    {template : List Piece} (hspaced : Piece.spaced template = true)
    (htexts : ∀ s, Piece.text s ∈ template → f s = s) :
    Piece.fill (args.map f) template = (Piece.fill args template).map f := by
  induction template with
  | nil => exact congrArg Except.ok hf.empty.symm
  | cons piece rest ih =>
    have hrest : ∀ s, Piece.text s ∈ rest → f s = s :=
      fun s hs => htexts s (List.mem_cons_of_mem _ hs)
    cases piece with
    | text s =>
      have hs : f s = s := htexts s (List.mem_cons_self ..)
      rw [Piece.fill_text, Piece.fill_text]
      cases rest with
      | nil =>
        show Except.ok (s ++ "") = .ok (f (s ++ ""))
        rw [String.append_empty, hs]
      | cons next rest =>
        obtain ⟨hleads, hspaced⟩ : leads s = true ∧ Piece.spaced (next :: rest) = true := by
          simpa [Piece.spaced] using hspaced
        rw [leads, Bool.and_eq_true] at hleads
        rw [ih hspaced hrest]
        cases Piece.fill args (next :: rest) with
        | error index => rfl
        | ok r =>
          refine congrArg Except.ok ?_
          rw [hf.shut_append _ _ hleads.2, hs]
    | arg index =>
      rw [Piece.spaced, Bool.and_eq_true] at hspaced
      cases harg : args[index]? with
      | none =>
        have harg' : (args.map f)[index]? = none := by
          rw [List.getElem?_map, harg]
          rfl
        rw [Piece.fill, Piece.fill, harg, harg']
        rfl
      | some a =>
        have harg' : (args.map f)[index]? = some (f a) := by
          rw [List.getElem?_map, harg]
          rfl
        rw [Piece.fill_arg harg, Piece.fill_arg harg', ih hspaced.2 hrest]
        cases hfill : Piece.fill args rest with
        | error index => rfl
        | ok r =>
          refine congrArg Except.ok ?_
          exact (hf.append_apart _ _ (Piece.isApart_fill hspaced.1 hfill)).symm

theorem Piece.holdsStem_of_spaced {template : List Piece} (h : Piece.spaced template = true)
    {s : String} (hs : Piece.text s ∈ template) : holdsStem s.toList = false := by
  induction template with
  | nil => cases hs
  | cons piece rest ih =>
    cases piece with
    | arg index =>
      rw [spaced, Bool.and_eq_true] at h
      exact ih h.2 ((List.mem_cons.mp hs).resolve_left nofun)
    | text t =>
      cases rest with
      | nil =>
        obtain rfl : s = t := by simpa using hs
        simpa [spaced] using h
      | cons next rest =>
        obtain ⟨hleads, hspaced⟩ : leads t = true ∧ spaced (next :: rest) = true := by
          simpa [spaced] using h
        rcases List.mem_cons.mp hs with heq | hs
        · cases heq
          simpa using (Bool.and_eq_true_iff.mp hleads).1
        · exact ih hspaced hs

theorem templateCode_shifted {b : Builtin} (h : Piece.spaced b.template = true) (k : Nat)
    (args : List String) :
    Shifted k (renumber k) (templateCode b args) (templateCode b (args.map (renumber k))) := by
  have htexts : ∀ s, Piece.text s ∈ b.template → renumber k s = s := fun s hs =>
    renumber_of_holdsStem k (Piece.holdsStem_of_spaced h hs)
  rw [templateCode, templateCode, (renumber_wordwise k).fill args h htexts]
  cases Piece.fill args b.template with
  | ok s => exact .pure rfl
  | error index => exact .fail _

theorem namedCallCode_shifted {name : String} (h : holdsStem name.toList = false) (k : Nat)
    (args : List String) :
    Shifted k (renumber k) (namedCallCode name args)
      (namedCallCode name (args.map (renumber k))) := by
  rw [namedCallCode, namedCallCode]
  cases hfind : Builtin.find? name with
  | some b => exact templateCode_shifted (Builtin.all_spaced b (List.mem_of_find?_eq_some hfind)) k args
  | none => exact .pure (by rw [(renumber_wordwise k).callText, renumber_of_holdsStem k h])

/-! ### Patterns -/

def Word.Formed : Word → Prop
  | .spelled kind text => ∃ lexeme, Lexeme kind text lexeme
  | .int _ | .float _ => True

theorem Word.Formed.name {s : String} (h : (Word.name s).Formed) :
    s ≠ "" ∧ s.toList.all isWordChar = true := by
  obtain ⟨lexeme, hlexeme⟩ := h
  cases hlexeme with
  | fixed hfixed => cases hfixed
  | name isName =>
    obtain ⟨c, hc, -⟩ := isName.start
    refine ⟨?_, ?_⟩
    · rw [Ne, ← String.toList_eq_nil_iff, String.toList_ofList]
      rintro rfl
      cases hc
    · rw [String.toList_ofList]
      exact List.all_eq_true.mpr isName.chars

theorem Word.Formed.operator_all {op : String} (h : (Word.operator op).Formed) {P : String → Bool}
    (hP : ∀ kind ∈ operatorKinds, (kind.fixedText?.all P) = true) : P op = true := by
  obtain ⟨lexeme, hlexeme⟩ := h
  have hkind := hlexeme.kind_ne_eof
  rw [operatorKind] at hkind
  cases hfind : operatorKinds.find? fun kind => kind.fixedText? == some op with
  | none =>
    rw [hfind] at hkind
    exact absurd rfl hkind
  | some kind =>
    have hbeq := List.find?_some hfind
    have htext : kind.fixedText? = some op := eq_of_beq hbeq
    have hall := hP kind (List.mem_of_find?_eq_some hfind)
    rwa [htext] at hall

theorem operators_separate : ∀ kind ∈ operatorKinds, (kind.fixedText?.all separates) = true := by
  decide +kernel

theorem Word.Formed.operator {op : String} (h : (Word.operator op).Formed) :
    separates op = true :=
  h.operator_all operators_separate

theorem Pattern.renumber_test (k : Nat) (temp : String) (p : Pattern) :
    renumber k (p.test temp) = p.test (renumber k temp) := by
  cases p with
  | some binding span? =>
    rw [Pattern.test, renumber_trail k _ (by decide), renumber_between k _ (by decide)]
    rfl
  | none span? => exact renumber_trail k temp (by decide)
  | ok binding span? | err binding span? =>
    rw [Pattern.test, renumber_trail k _ (by decide), renumber_lead k (by decide)]
    rfl
  | unknown =>
    show renumber k "True" = "True"
    exact renumber_of_holdsStem k (by decide)

/-- Renumbering goes through the substitution in an arm. -/
theorem Pattern.renumber_bind {p : Pattern} (htexts : NoStems p.texts)
    (hwords : ∀ w ∈ p.words, w.Formed) (k : Nat) (temp body : String) :
    renumber k (p.bind temp body) = p.bind (renumber k temp) (renumber k body) := by
  have hreplace : ∀ binding part, trails part = true → holdsStem binding.toList = false →
      (Word.name binding).Formed →
      renumber k (replaceWord binding (temp ++ part) body) =
        replaceWord binding (renumber k temp ++ part) (renumber k body) := by
    intro binding part hpart hstem hname
    rw [renumber_replaceWord hname.name.1 hname.name.2 hstem, renumber_trail k temp hpart]
  cases p with
  | some binding span? | ok binding span? | err binding span? =>
    exact hreplace binding _ (by decide) (htexts _ (by simp [texts])) (hwords _ (by simp [words]))
  | none span? => rfl
  | unknown => rfl

theorem Pattern.bind_wordwise {p : Pattern} (h : ∀ w ∈ p.words, w.Formed) (temp : String) :
    Wordwise fun body => p.bind temp body := by
  have hreplace : ∀ binding new, (Word.name binding).Formed → Wordwise (replaceWord binding new) :=
    fun binding new hname => replaceWord_wordwise hname.name.1 hname.name.2 new
  cases p with
  | some binding span? | ok binding span? | err binding span? =>
    exact hreplace binding _ (h _ (by simp [words]))
  | none span? => exact .id
  | unknown => exact .id

theorem Pattern.bind_of_not_mem {p : Pattern} (h : ∀ w ∈ p.words, w.Formed) {word : String}
    (hword : word.toList.all isWordChar = true) (hp : word ∉ p.texts) (temp : String) :
    p.bind temp word = word := by
  have hreplace : ∀ binding new, (Word.name binding).Formed → word ≠ binding →
      replaceWord binding new word = word := by
    intro binding new hname hne
    rw [replaceWord_word hname.name.1 hname.name.2 new hword, if_neg hne]
  cases p with
  | some binding span? | ok binding span? | err binding span? =>
    exact hreplace binding _ (h _ (by simp [words])) (by simpa [texts] using hp)
  | none span? => rfl
  | unknown => rfl

/-! ### Expressions -/

mutual

/-- An expression is emitted alike from a number that is `k` larger, renumbered by `k`. -/
theorem emitExpr_shifted (k : Nat) : ∀ e : Expr, NoStems e.texts → (∀ w ∈ e.words, w.Formed) →
    Shifted k (renumber k) (emitExpr e) (emitExpr e)
  | .int value _ => fun _ _ => by
    refine .pure (renumber_of_holdsStem k (holdsStem_of_not_mem ?_))
    exact (spelled_int value).not_mem (by decide)
  | .float value _ => fun _ _ => by
    refine .pure (renumber_of_holdsStem k (holdsStem_of_not_mem ?_))
    exact value.spelled_text.not_mem (by decide)
  | .string value _ => fun htexts _ => by
    exact .pure (renumber_stringCode k (htexts value (by simp)))
  | .bool value _ => fun _ _ => by
    refine .pure (renumber_of_holdsStem k ?_)
    cases value <;> decide
  | .name name _ => fun htexts _ => by
    exact .pure (renumber_of_holdsStem k (htexts name (by simp)))
  | .binary left op right _ => fun htexts hwords => by
    simp only [Expr.texts, List.forall_mem_append] at htexts
    simp only [Expr.words, List.forall_mem_append, List.forall_mem_singleton] at hwords
    have hop := renumber_of_holdsStem k (of_separates hwords.1.2.operator).2.2
    refine (emitExpr_shifted k left htexts.1 hwords.1.1).bind fun l => ?_
    refine (emitExpr_shifted k right htexts.2 hwords.2).bind fun r => .pure ?_
    exact (renumber_wordwise k).binaryText hop l r
  | .unary op operand _ => fun htexts hwords => by
    simp only [Expr.words, List.forall_mem_append, List.forall_mem_singleton] at hwords
    obtain ⟨-, hends, hstem⟩ := of_separates hwords.1.operator
    refine (emitExpr_shifted k operand htexts hwords.2).bind fun code => .pure ?_
    exact (renumber_wordwise k).unaryText (renumber_of_holdsStem k hstem)
      (Bool.and_eq_true_iff.mp hends).1 code
  | .call callee args _ => fun htexts hwords => by
    simp only [Expr.texts, List.forall_mem_append] at htexts
    simp only [Expr.words, List.forall_mem_append] at hwords
    have hcallee := emitExpr_shifted k callee htexts.1 hwords.1
    have hargs := emitExprs_shifted k args htexts.2 hwords.2
    -- A call of a name is written by another rule than any other call.
    cases callee with
    | name name span? =>
      exact hargs.bind fun codes => namedCallCode_shifted (htexts.1 name (by simp)) k codes
    | _ =>
      simp only [emitExpr] at hcallee ⊢
      refine hcallee.bind fun code => hargs.bind fun codes => .pure ?_
      exact (renumber_wordwise k).callText code codes
  | .field object field _ => fun htexts hwords => by
    simp only [Expr.texts, List.forall_mem_append, List.forall_mem_singleton] at htexts
    simp only [Expr.words, List.forall_mem_append] at hwords
    refine (emitExpr_shifted k object htexts.1 hwords.1).bind fun code => .pure ?_
    rw [renumber_between k _ (by decide), renumber_of_holdsStem k htexts.2]
  | .propagate operand _ => fun htexts hwords => by
    simp only [Expr.words, List.forall_mem_append] at hwords
    refine (emitExpr_shifted k operand htexts hwords.1).bind fun code => .pure ?_
    rw [renumber_trail k _ (by decide), renumber_lead k (by decide)]
  | .list elements _ => fun htexts hwords => by
    simp only [Expr.words, List.forall_mem_append] at hwords
    refine (emitExprs_shifted k elements htexts hwords.1.2).bind fun codes => .pure ?_
    exact (renumber_wordwise k).listText codes
  | .matching subject arms _ => fun htexts hwords => by
    simp only [Expr.texts, List.forall_mem_append] at htexts
    simp only [Expr.words, List.forall_mem_append] at hwords
    refine (emitExpr_shifted k subject htexts.1 hwords.1.1.1.2).bind fun code => ?_
    refine fresh_shifted.bind fun n => ?_
    have harms := emitArms_shifted k ("__match_" ++ toString n) arms htexts.2 hwords.1.2
    rw [renumber_matchName] at harms
    refine harms.bind fun choice => .pure ?_
    rw [(renumber_wordwise k).matchText (renumber_of_holdsStem k (by decide)), renumber_matchName]
  | .stmt _ | .unknown => fun _ _ => by
    exact .fail _

theorem emitExprs_shifted (k : Nat) : ∀ es : List Expr, NoStems (exprsTexts es) →
    (∀ w ∈ exprsWords es, w.Formed) →
    Shifted k (List.map (renumber k)) (emitExprs es) (emitExprs es)
  | [] => fun _ _ => .pure rfl
  | e :: es => fun htexts hwords => by
    simp only [exprsTexts, List.forall_mem_append] at htexts
    simp only [exprsWords, List.forall_mem_append] at hwords
    refine (emitExpr_shifted k e htexts.1 hwords.1).bind fun first => ?_
    exact (emitExprs_shifted k es htexts.2 hwords.2).bind fun rest => .pure rfl

theorem emitArms_shifted (k : Nat) (temp : String) : ∀ arms : List Arm, NoStems (armsTexts arms) →
    (∀ w ∈ armsWords arms, w.Formed) →
    Shifted k (renumber k) (emitArms temp arms) (emitArms (renumber k temp) arms)
  | [] => fun _ _ => .pure (renumber_of_holdsStem k (by decide))
  | [⟨pattern, body, _⟩] => fun htexts hwords => by
    simp only [armsTexts, List.forall_mem_append] at htexts
    simp only [armsWords, List.forall_mem_append] at hwords
    refine (emitExpr_shifted k body htexts.2.1 hwords.1.2).bind fun code => .pure ?_
    exact Pattern.renumber_bind htexts.1 hwords.1.1.1 k temp code
  | ⟨pattern, body, _⟩ :: arm :: arms => fun htexts hwords => by
    rw [armsTexts, NoStems, List.forall_mem_append, List.forall_mem_append] at htexts
    rw [armsWords, List.forall_mem_append, List.forall_mem_append, List.forall_mem_append] at hwords
    have hrest := emitArms_shifted k temp (arm :: arms) htexts.2.2 hwords.2
    obtain ⟨pattern', body', span?'⟩ := arm
    refine (emitExpr_shifted k body htexts.2.1 hwords.1.2).bind fun code => ?_
    refine hrest.bind fun rest => .pure ?_
    rw [(renumber_wordwise k).choiceText (renumber_of_holdsStem k (by decide))
      (renumber_of_holdsStem k (by decide)), Pattern.renumber_test,
      Pattern.renumber_bind htexts.1 hwords.1.1.1]

end

end Owl
