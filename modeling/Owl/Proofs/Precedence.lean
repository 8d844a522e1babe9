/-
How operators group.

An expression without parentheses is a chain of operands with operators between
them.  Of the trees that are written with the words of a chain, one is grouped as
the operators bind: products before sums, sums before comparisons, each of them to
the left, and minus signs before all of these.
The reading of grouped trees also shows that there is only one for each chain, since
reading gives one tree.
-/
import Owl.Proofs.Faithful
import Owl.Proofs.ReadBack.Parsing

namespace Owl

open Owl.Parser

/-! ### Grouped trees -/

/-- The level of what stands at the top of a tree.  A minus sign binds more than all operators
between two operands. -/
def Expr.topLevel : Expr → Nat
  | .binary _ op _ _ => operatorLevel op
  | _ => 0

/-- The trees of operators over names, strings and integers in which every operator takes as its
left operand what binds at least as much, and as its right operand what binds more. -/
inductive Expr.Grouped : Expr → Prop
  | name {name : String} {span? : Option Span} : Grouped (.name name span?)
  | string {value : String} {span? : Option Span} : Grouped (.string value span?)
  | int {value : Int} {span? : Option Span} : Grouped (.int value span?)
  | minus {operand : Expr} {span? : Option Span} (isOperand : Grouped operand)
      (tight : operand.topLevel = 0) : Grouped (.unary "-" operand span?)
  | binary {left right : Expr} {op : String} {span? : Option Span} (isOp : op ∈ binaryOps)
      (isLeft : Grouped left) (isRight : Grouped right) (tight : left.topLevel ≤ operatorLevel op)
      (tighter : right.topLevel < operatorLevel op) : Grouped (.binary left op right span?)

/-- A tree that differs from a grouped one in its places is grouped, and has the same words. -/
theorem Expr.Grouped.of_strip {e e' : Expr} (h : e.Grouped) (hstrip : e'.strip = e.strip) :
    e'.Grouped ∧ e'.words = e.words ∧ e'.topLevel = e.topLevel := by
  induction h generalizing e' with
  | name | string | int =>
    cases e' <;> simp only [Expr.strip, Expr.name.injEq, Expr.string.injEq, Expr.int.injEq,
      reduceCtorEq] at hstrip
    rw [hstrip.1]
    exact ⟨by constructor, rfl, rfl⟩
  | minus isOperand tight ih =>
    cases e' <;> simp only [Expr.strip, Expr.unary.injEq, reduceCtorEq] at hstrip
    obtain ⟨rfl, hoperand, -⟩ := hstrip
    obtain ⟨hgrouped, hwords, hlevel⟩ := ih hoperand
    exact ⟨.minus hgrouped (hlevel.trans tight), by simp [hwords], rfl⟩
  | binary isOp isLeft isRight tight tighter ihl ihr =>
    cases e' <;> simp only [Expr.strip, Expr.binary.injEq, reduceCtorEq] at hstrip
    obtain ⟨hleft, rfl, hright, -⟩ := hstrip
    obtain ⟨hgrouped, hwords, hlevel⟩ := ihl hleft
    obtain ⟨hgrouped', hwords', hlevel'⟩ := ihr hright
    refine ⟨.binary isOp hgrouped hgrouped' ?_ ?_, by simp [hwords, hwords'], rfl⟩
    · rwa [hlevel]
    · rwa [hlevel']

/-! ### Words of tokens -/

theorem Token.of_word_spelled {t : Token} {kind : TokenKind} {text : String}
    (h : t.word = .spelled kind text) : t.kind = kind ∧ t.text = text := by
  rw [Token.word] at h
  split at h
  · next hkind =>
    split at h
    · cases h
    · cases h
      exact ⟨hkind, rfl⟩
  · next hkind =>
    split at h
    · cases h
    · cases h
      exact ⟨hkind, rfl⟩
  · cases h
    exact ⟨rfl, rfl⟩

theorem Token.of_word_int {t : Token} {value : Int} (h : t.word = .int value) :
    t.kind = .int ∧ Numeral.readInt t.text = .ok value := by
  rw [Token.word] at h
  split at h
  · split at h
    · next hread =>
      cases h
      exact ⟨‹_›, hread⟩
    · cases h
  · split at h <;> cases h
  · cases h

/-- One token that is read as a tree by itself. -/
theorem Expr.ReadSigned.of_primary {e : Expr} {t : Token} (hminus : t.kind ≠ .minus)
    (h : ∀ rounds src rest,
      Yields Expr.strip (primary (expr rounds) rounds) src (t :: rest) e.strip rest) :
    e.ReadSigned [t] := by
  intro rounds more hrounds hmore src u rest hu
  obtain ⟨e', hrun, hstrip⟩ := h rounds src (u :: rest)
  have hpostfix : postfixExpr (expr rounds) rounds src (t :: u :: rest) = .ok e' (u :: rest) := by
    rw [postfixExpr, bind_ok hrun, suffixes_stop hrounds e' hu]
  exact unaryLevel_pass hmore hminus ⟨e', hpostfix, hstrip⟩

/-! ### Reading grouped trees -/

theorem Expr.Grouped.tokens_ne_nil {e : Expr} (h : e.Grouped) {ts : List Token}
    (hts : ts.map Token.word = e.words) : ts ≠ [] := by
  rintro rfl
  cases h <;> simp at hts

theorem Expr.Grouped.readSigned {e : Expr} (h : e.Grouped) (hlevel : e.topLevel = 0)
    {ts : List Token} (hts : ts.map Token.word = e.words) : e.ReadSigned ts := by
  induction h generalizing ts with
  | name | string =>
    obtain ⟨⟨kind, text, pos⟩, rfl, ht⟩ := List.map_eq_singleton_iff.mp hts
    obtain ⟨rfl, rfl⟩ := Token.of_word_spelled ht
    exact .of_primary (by simp) fun rounds src rest => ⟨_, rfl, rfl⟩
  | int =>
    obtain ⟨⟨kind, text, pos⟩, rfl, ht⟩ := List.map_eq_singleton_iff.mp hts
    obtain ⟨rfl, hread⟩ := Token.of_word_int ht
    exact .of_primary (by simp) fun _ _ _ => primary_int hread _ _
  | minus isOperand tight ih =>
    obtain ⟨sign, us, rfl, hsign, hus⟩ := List.map_eq_cons_iff.mp hts
    obtain ⟨hkind, htext⟩ := Token.of_word_spelled hsign
    exact (ih tight hus).minus hkind htext
  | binary isOp =>
    -- No operator between two operands has level 0.
    have hpos := (operatorKind_level isOp).2.2.1
    rw [Expr.topLevel] at hlevel
    omega

section Grouped

variable {e left right : Expr} {ts us : List Token} {k : Nat}

theorem Expr.Grouped.readAt_zero (h : e.Grouped) (hlevel : e.topLevel = 0)
    (hts : ts.map Token.word = e.words) : e.ReadAt 0 ts :=
  (h.readSigned hlevel hts).readAt

/-- What a level reads is a left operand of all that are not tighter. -/
theorem Expr.Grouped.openAt_of_readAt (h : e.Grouped) (hts : ts.map Token.word = e.words) {j : Nat}
    (hread : e.ReadAt j ts) (hjk : j ≤ k) : e.OpenAt k ts := by
  have hne := h.tokens_ne_nil hts
  exact (hread.mono hne hjk).openAt hne

theorem Expr.Grouped.openAt_zero (h : e.Grouped) (hlevel : e.topLevel = 0)
    (hts : ts.map Token.word = e.words) : e.OpenAt k ts :=
  h.openAt_of_readAt hts (h.readAt_zero hlevel hts) (Nat.zero_le k)

theorem Expr.Grouped.readAt_of_openAt (h : e.Grouped) (hts : ts.map Token.word = e.words)
    (hopen : ∀ j, e.topLevel ≤ j + 1 → e.OpenAt j ts) (hk : e.topLevel ≤ k) : e.ReadAt k ts := by
  cases k with
  | zero => exact h.readAt_zero (Nat.le_zero.mp hk) hts
  | succ k => exact (hopen k hk).readAt

/-- From its words, a grouped tree is read as a left operand of every level that is not tighter than
its own. -/
theorem Expr.Grouped.openAt (h : e.Grouped) (hts : ts.map Token.word = e.words) (k : Nat)
    (hk : e.topLevel ≤ k + 1) : e.OpenAt k ts := by
  induction h generalizing ts k with
  | name => exact Grouped.name.openAt_zero rfl hts
  | string => exact Grouped.string.openAt_zero rfl hts
  | int => exact Grouped.int.openAt_zero rfl hts
  | @minus operand span? isOperand tight =>
    have hminus : (Expr.unary "-" operand span?).Grouped := .minus isOperand tight
    exact hminus.openAt_zero rfl hts
  | @binary left right op span? isOp isLeft isRight tight tighter ihl ihr =>
    have hbinary : (Expr.binary left op right span?).Grouped :=
      .binary isOp isLeft isRight tight tighter
    obtain ⟨front, us, rfl, hfront, hus⟩ := List.map_eq_append_iff.mp hts
    obtain ⟨ls, os, rfl, hls, hos⟩ := List.map_eq_append_iff.mp hfront
    obtain ⟨t, rfl, ht⟩ := List.map_eq_singleton_iff.mp hos
    obtain ⟨j, hj⟩ := Nat.exists_eq_add_one.mpr (operatorKind_level isOp).2.2.1
    -- At the level of the operator the left operand is still open, whatever stands at its top.
    have hopen : (Expr.binary left op right span?).OpenAt j (ls ++ t :: us) := by
      have hleft : left.OpenAt j ls := ihl hls j (by omega)
      have hright : right.ReadAt j us := isRight.readAt_of_openAt hus (ihr hus) (by omega)
      obtain ⟨hkind, rfl⟩ := Token.of_word_spelled ht
      exact hleft.binary_of_kind isOp hkind hj hright
    rw [List.append_assoc, List.singleton_append] at hts ⊢
    rw [Expr.topLevel, hj] at hk
    by_cases hjk : j = k
    · rwa [hjk] at hopen
    · -- A looser level takes the whole tree as its first operand.
      exact hbinary.openAt_of_readAt hts hopen.readAt (by omega)

/-- From the words of a grouped tree, this tree is read. -/
theorem Expr.Grouped.reads (h : e.Grouped) (hts : ts.map Token.word = e.words) {rounds : Nat}
    (hrounds : ts.length < rounds) (src : TokenSource) {t : Token} (ht : t.Ends 3)
    (rest : List Token) :
    Yields Expr.strip (expr rounds) src (ts ++ t :: rest) e.strip (t :: rest) := by
  have hlevel : e.topLevel ≤ 3 := by
    cases h with
    | binary isOp => exact (operatorKind_level isOp).2.2.2.1
    | _ => exact Nat.zero_le 3
  have hread : e.ReadAt 3 ts := h.readAt_of_openAt hts (h.openAt hts) hlevel
  exact hread.expr (h.tokens_ne_nil hts) (Nat.le_refl 3) hrounds src ht rest

end Grouped

/-! ### Growing a tree -/

/-- A grouped tree with an operator and one more operand behind it. -/
def Expr.attach : Expr → String → Expr → Expr
  | .binary left top right span?, op, operand =>
    if operatorLevel top ≤ operatorLevel op then
      .binary (.binary left top right span?) op operand none
    else .binary left top (right.attach op operand) none
  | e, op, operand => .binary e op operand none

theorem Expr.words_attach (e : Expr) (op : String) (operand : Expr) :
    (e.attach op operand).words = e.words ++ [Word.operator op] ++ operand.words := by
  fun_induction Expr.attach e op operand with
  | case1 => rfl
  | case2 left top right span? op operand _ ih => simp [ih]
  | case3 => rw [Expr.words]

/-- The tree takes the looser one of the two levels. -/
theorem Expr.topLevel_attach (e : Expr) (op : String) (operand : Expr) :
    (e.attach op operand).topLevel = max e.topLevel (operatorLevel op) := by
  fun_induction Expr.attach e op operand with
  | case1 left top right span? op operand h => exact (Nat.max_eq_right h).symm
  | case2 left top right span? op operand h => exact (Nat.max_eq_left (Nat.le_of_not_le h)).symm
  | case3 e op operand hbinary =>
    cases e with
    | binary left top right span? => exact absurd rfl (hbinary left top right span?)
    | _ => exact (Nat.zero_max _).symm

theorem Expr.Grouped.attach {e : Expr} (h : e.Grouped) {op : String} (hop : op ∈ binaryOps)
    {operand : Expr} (hoperand : operand.Grouped) (hlevel : operand.topLevel = 0) :
    (e.attach op operand).Grouped := by
  have hpos : 0 < operatorLevel op := (operatorKind_level hop).2.2.1
  induction h with
  | name => exact .binary hop .name hoperand (Nat.zero_le _) (by omega)
  | string => exact .binary hop .string hoperand (Nat.zero_le _) (by omega)
  | int => exact .binary hop .int hoperand (Nat.zero_le _) (by omega)
  | minus isOperand tight =>
    exact .binary hop (.minus isOperand tight) hoperand (Nat.zero_le _) (by omega)
  | @binary left right top span? isTop isLeft isRight tight tighter ihl ihr =>
    rw [Expr.attach]
    split
    · next hle =>
      have hleft : (Expr.binary left top right span?).Grouped :=
        .binary isTop isLeft isRight tight tighter
      exact .binary hop hleft hoperand hle (by omega)
    · -- The new operator binds more than the one at the top, so it belongs to the right operand.
      next hlt =>
      refine .binary isTop isLeft ihr tight ?_
      rw [Expr.topLevel_attach]
      omega

/-! ### Chains -/

/-- A token that is a tree by itself: a name, a string, or an integer that has a value. -/
def Token.IsAtom (t : Token) : Prop :=
  t.kind = .ident ∨ t.kind = .string ∨ t.kind = .int ∧ ∃ value, Numeral.readInt t.text = .ok value

/-- An operand: minus signs, each at its place, and a token behind them. -/
structure Operand where
  signs : List Position
  atom : Token
  isAtom : atom.IsAtom

/-- An operator between two operands. -/
structure Operator where
  text : String
  pos : Position
  isOp : text ∈ binaryOps

def Operand.tokens (a : Operand) : List Token :=
  a.signs.map (fun pos => ⟨.minus, "-", pos⟩) ++ [a.atom]

def Operator.token (o : Operator) : Token := ⟨operatorKind o.text, o.text, o.pos⟩

/-- The tokens of a chain: an operand, and operators with an operand behind each of them. -/
def chainTokens (first : Operand) (more : List (Operator × Operand)) : List Token :=
  first.tokens ++ more.flatMap fun (o, a) => o.token :: a.tokens

theorem Operator.word_token (o : Operator) : o.token.word = .operator o.text := by
  have hall : ∀ op ∈ binaryOps, (operatorKind op).fixedText? = some op ∧
      operatorKind op ∈ operatorKinds := by decide
  obtain ⟨hfixed, hkind⟩ := hall o.text o.isOp
  exact o.token.word_operator (.inr ⟨_, .fixed hfixed⟩) hkind

theorem Operand.exists_grouped (a : Operand) :
    ∃ e : Expr, e.Grouped ∧ e.topLevel = 0 ∧ e.words = a.tokens.map Token.word := by
  obtain ⟨signs, atom, isAtom⟩ := a
  induction signs with
  | nil =>
    rcases isAtom with hkind | hkind | ⟨hkind, value, hread⟩
    · exact ⟨.name atom.text none, .name, rfl, by simp [tokens, atom.word_name hkind]⟩
    · exact ⟨.string atom.text none, .string, rfl, by simp [tokens, Token.word, hkind]⟩
    · exact ⟨.int value none, .int, rfl, by simp [tokens, Token.word, hkind, hread]⟩
  | cons pos signs ih =>
    obtain ⟨e, hgrouped, hlevel, hwords⟩ := ih
    have hsign : (⟨.minus, "-", pos⟩ : Token).word = .operator "-" :=
      Operator.word_token ⟨"-", pos, by decide⟩
    refine ⟨.unary "-" e none, .minus hgrouped hlevel, rfl, ?_⟩
    simp [tokens, hwords, hsign]

theorem exists_grouped (first : Operand) (more : List (Operator × Operand)) :
    ∃ e : Expr, e.Grouped ∧ e.words = (chainTokens first more).map Token.word := by
  -- The tree grows operand by operand, so the statement is about what is behind a tree.
  have hgrow : ∀ (more : List (Operator × Operand)) (e : Expr), e.Grouped →
      ∃ e' : Expr, e'.Grouped ∧ e'.words = e.words ++
        (more.flatMap fun (o, a) => o.token :: a.tokens).map Token.word := by
    intro more
    induction more with
    | nil => exact fun e h => ⟨e, h, by simp⟩
    | cons step more ih =>
      intro e h
      obtain ⟨o, a⟩ := step
      obtain ⟨operand, hoperand, hlevel, hwords⟩ := a.exists_grouped
      have hattached := h.attach o.isOp hoperand hlevel
      obtain ⟨e', hgrouped, hwords'⟩ := ih (e.attach o.text operand) hattached
      refine ⟨e', hgrouped, ?_⟩
      rw [hwords', Expr.words_attach, hwords, ← o.word_token]
      simp
  obtain ⟨e, hgrouped, -, hwords⟩ := first.exists_grouped
  obtain ⟨e', hgrouped', hwords'⟩ := hgrow more e hgrouped
  refine ⟨e', hgrouped', ?_⟩
  rw [hwords', hwords, chainTokens, List.map_append]

/-- A token that cannot go on with an expression: it is no operator, and no call, field or question
mark starts with it. -/
def Token.EndsExpr (t : Token) : Prop := t.kind ∉ operatorKinds ∧ t.kind ∉ suffixKinds

theorem isLevelOp_mem {k : Nat} {kind : TokenKind} (h : isLevelOp k kind = true) :
    kind ∈ operatorKinds := by
  rw [isLevelOp.eq_def] at h
  split at h
  · exact isMultiplicative_mem kind h
  · exact isAdditive_mem kind h
  · exact isComparison_mem kind h
  · cases h

theorem Token.EndsExpr.ends {t : Token} (h : t.EndsExpr) (k : Nat) : t.Ends k := by
  refine ⟨h.2, fun j _ => ?_⟩
  by_contra hop
  exact h.1 (isLevelOp_mem (Bool.not_eq_false _ ▸ hop))

/-- **Operators group as they bind.**  A chain of operands and operators, in front of a token that
cannot go on with an expression, is read as the one tree that is written with its words and in which
every operator has as its left operand what binds at least as much, and as its right operand what
binds more; reading ends in front of that token. -/
theorem expr_groups (first : Operand) (more : List (Operator × Operand)) {rounds : Nat}
    (hrounds : (chainTokens first more).length < rounds) (src : TokenSource) {t : Token}
    (ht : t.EndsExpr) (rest : List Token) :
    ∃ e : Expr, expr rounds src (chainTokens first more ++ t :: rest) = .ok e (t :: rest) ∧
      e.Grouped ∧ e.words = (chainTokens first more).map Token.word ∧
      ∀ e' : Expr, e'.Grouped → e'.words = (chainTokens first more).map Token.word →
        e'.strip = e.strip := by
  obtain ⟨tree, hgrouped, hwords⟩ := exists_grouped first more
  obtain ⟨e, hrun, hstrip⟩ := hgrouped.reads hwords.symm hrounds src (ht.ends 3) rest
  obtain ⟨he, hwords', -⟩ := hgrouped.of_strip hstrip
  refine ⟨e, hrun, he, hwords'.trans hwords, fun e' hgrouped' hwords' => ?_⟩
  -- Any such tree is what is read.
  obtain ⟨e'', hrun', hstrip'⟩ := hgrouped'.reads hwords'.symm hrounds src (ht.ends 3) rest
  rw [hrun] at hrun'
  cases hrun'
  exact hstrip'.symm

/-- The chain `a - -b * 2 == "c"` in front of a brace. -/
theorem expr_groups_mixed :
    ∃ (first : Operand) (more : List (Operator × Operand)) (e : Expr) (brace : Token),
      (chainTokens first more).map (·.text) = ["a", "-", "-", "b", "*", "2", "==", "c"] ∧
      (chainTokens first more).length < 9 ∧ brace.EndsExpr ∧
      expr 9 ⟨"", brace⟩ (chainTokens first more ++ [brace]) = .ok e [brace] ∧
      e.strip = .binary (.binary (.name "a" none) "-" (.binary (.unary "-" (.name "b" none) none)
        "*" (.int 2 none) none) none) "==" (.string "c" none) none := by
  let first : Operand := ⟨[], .bare .ident "a", .inl rfl⟩
  let more : List (Operator × Operand) := [
    (⟨"-", .start, by decide⟩, ⟨[.start], .bare .ident "b", .inl rfl⟩),
    (⟨"*", .start, by decide⟩, ⟨[], .bare .int "2", .inr (.inr ⟨rfl, 2, by decide +kernel⟩)⟩),
    (⟨"==", .start, by decide⟩, ⟨[], .bare .string "c", .inr (.inl rfl)⟩)]
  let product : Expr := .binary (.unary "-" (.name "b" none) none) "*" (.int 2 none) none
  let tree : Expr :=
    .binary (.binary (.name "a" none) "-" product none) "==" (.string "c" none) none
  have hproduct : product.Grouped :=
    .binary (by decide) (.minus .name rfl) .int (by decide) (by decide)
  have htree : tree.Grouped := by
    refine .binary (by decide) (.binary (by decide) .name hproduct ?_ ?_) .string ?_ ?_
    all_goals decide
  have hlength : (chainTokens first more).length < 9 := by decide
  have hbrace : (Token.mark .lbrace).EndsExpr := ⟨by decide, by decide⟩
  obtain ⟨e, hrun, -, -, hunique⟩ := expr_groups first more hlength ⟨"", .mark .lbrace⟩ hbrace []
  refine ⟨first, more, e, .mark .lbrace, by decide, hlength, hbrace, hrun, ?_⟩
  rw [← hunique tree htree (by decide +kernel)]
  rfl

end Owl
