/-
The tokens of plain expressions, read.
-/
import Owl.Proofs.Layout.Trees
import Owl.Proofs.ReadBack.Lexing

namespace Owl

variable {rounds : Nat} {e : Expr} {es : List Expr} {digits : List Char} {c : Char}

/-! ### Numerals -/

namespace Numeral

theorem digitRun?_digits (h : ∀ c ∈ digits, c.isDigit) :
    digitRun? true digits = some (digits.map fun c => c.toNat - 48, []) := by
  induction digits with
  | nil => rfl
  | cons c digits ih =>
    have hc : Text.decimalValue? c = some (c.toNat - 48) := by
      rw [Text.decimalValue?, if_pos (h c (List.mem_cons_self ..))]
    rw [digitRun?, hc, ih fun d hd => h d (List.mem_cons_of_mem _ hd)]
    rfl

theorem digitRun?_false (h : c.isDigit) :
    digitRun? false (c :: digits) = digitRun? true (c :: digits) := by
  have hc : Text.decimalValue? c = some (c.toNat - 48) := by rw [Text.decimalValue?, if_pos h]
  rw [digitRun?, digitRun?, hc]

theorem isMargin_of_isDigit (h : c.isDigit) : isMargin c = false := by
  obtain ⟨hlow, hhigh⟩ := Text.toNat_of_isDigit h
  have hdigit : Text.inRanges [(48, 57)] c.toNat := by simp [Text.inRanges, hlow, hhigh]
  have hblank : Text.isBlank c = false :=
    Text.inRanges_of_apart (by decide) (by decide) (by decide) hdigit
  rw [isMargin, hblank, Bool.false_and]

theorem sign_of_isDigit (h : c.isDigit) : sign (c :: digits) = (false, c :: digits) := by
  have hminus : c ≠ '-' := by rintro rfl; exact absurd h (by decide)
  have hplus : c ≠ '+' := by rintro rfl; exact absurd h (by decide)
  unfold sign
  split <;> simp_all

theorem value_toDigits (n : Nat) : value ((Nat.toDigits 10 n).map fun c => c.toNat - 48) = n := by
  have h := Nat.ofDigitChars_toDigits (b := 10) (n := n) (by decide) (by decide)
  rw [Nat.ofDigitChars_eq_foldl] at h
  rw [value, List.foldl_map]
  exact h

/-- The digits of a number that is not too long are read as the number. -/
theorem readInt_toString {n : Int} (hn : 0 ≤ n) (hshort : (toString n).length ≤ digitLimit) :
    readInt (toString n) = .ok n := by
  obtain ⟨hne, hdigits⟩ := digits_of_nonneg hn
  have htoDigits := toDigits_of_nonneg hn
  obtain ⟨c, cs, hcs⟩ := List.exists_cons_of_ne_nil hne
  have hc : c.isDigit := hdigits c (by rw [hcs]; exact List.mem_cons_self ..)
  have hlength : (c :: cs).length ≤ digitLimit := by
    rwa [← hcs, String.length_toList]
  rw [hcs] at hdigits
  rw [readInt, hcs, List.dropWhile_cons_of_neg (by simp [isMargin_of_isDigit hc]),
    sign_of_isDigit hc]
  simp only [digitRun?_false hc, digitRun?_digits hdigits]
  rw [if_neg (by simpa using hlength), if_pos (by rfl)]
  rw [← hcs, htoDigits, value_toDigits, if_neg (by decide), Int.toNat_of_nonneg hn]

end Numeral

/-! ### Running parsers -/

namespace Parser

variable {α β γ δ : Type} {src : TokenSource} {t : Token} {ts us rest : List Token}

def Yields (view : α → γ) (p : Parser α) (src : TokenSource) (ts : List Token) (v : γ)
    (rest : List Token) : Prop :=
  ∃ a, p src ts = .ok a rest ∧ view a = v

theorem Yields.bind {view : α → γ} {view' : β → δ} {p : Parser α} {f : α → Parser β} {v : γ}
    {w : δ} (h : Yields view p src ts v us)
    (hf : ∀ a, view a = v → Yields view' (f a) src us w rest) :
    Yields view' (p >>= f) src ts w rest := by
  obtain ⟨a, hrun, hview⟩ := h
  obtain ⟨b, hrun', hview'⟩ := hf a hview
  exact ⟨b, by rw [bind_ok hrun, hrun'], hview'⟩

theorem accept_mark {kind : TokenKind} (heof : kind ≠ .eof) :
    accept kind src (.mark kind :: ts) = .ok true ts :=
  accept_hit rfl heof

theorem expect_taken {kind : TokenKind} (what : String) (heof : kind ≠ .eof) :
    expect kind what src (.mark kind :: ts) = .ok (.mark kind) ts :=
  expect_hit what rfl heof

end Parser

open Owl.Parser

variable {src : TokenSource} {t : Token} {ts rest : List Token}

/-! ### Levels -/

section Levels

variable {isOp : TokenKind → Bool} {operand : Parser Expr}

theorem binaryRest_stop (hrounds : 0 < rounds) (left : Expr) (h : isOp t.kind = false) :
    binaryRest isOp operand rounds left src (t :: rest) = .ok left (t :: rest) := by
  obtain ⟨rounds, rfl⟩ := Nat.exists_eq_add_one.mpr hrounds
  exact bind_ok (accept?_miss h) _

theorem unaryLevel_pass (hrounds : 0 < rounds) {v : Expr} (h : t.kind ≠ .minus)
    (hoperand : Yields Expr.strip operand src (t :: ts) v rest) :
    Yields Expr.strip (unaryLevel operand rounds) src (t :: ts) v rest := by
  obtain ⟨rounds, rfl⟩ := Nat.exists_eq_add_one.mpr hrounds
  obtain ⟨e, hrun, he⟩ := hoperand
  refine ⟨e, ?_, he⟩
  rw [unaryLevel, bind_ok (accept?_miss (by simp [h]))]
  exact hrun

end Levels

def suffixKinds : List TokenKind := [.lparen, .dot, .question]

theorem suffixes_stop {expr : Parser Expr} (hrounds : 0 < rounds) (base : Expr)
    (h : t.kind ∉ suffixKinds) :
    suffixes expr rounds base src (t :: rest) = .ok base (t :: rest) := by
  simp only [suffixKinds, List.mem_cons, List.not_mem_nil, or_false, not_or] at h
  obtain ⟨hparen, hdot, hquestion⟩ := h
  obtain ⟨rounds, rfl⟩ := Nat.exists_eq_add_one.mpr hrounds
  rw [suffixes, bind_ok (accept?_miss (by simp [hparen]))]
  show (accept .dot >>= _) src (t :: rest) = _
  rw [bind_ok (accept_miss hdot)]
  exact bind_ok (accept?_miss (by simp [hquestion])) _

/-! ### The ladder of levels -/

/-- The level of an operator between two operands.  Products bind most. -/
def operatorLevel : String → Nat
  | "*" | "/" | "%" => 1
  | "+" | "-" => 2
  | _ => 3

def isLevelOp : Nat → TokenKind → Bool
  | 1 => isMultiplicative
  | 2 => isAdditive
  | 3 => isComparison
  | _ => fun _ => false

/-- What binds at least as much as the operators of a level. -/
def levelExpr (rounds : Nat) : Nat → Parser Expr
  | 0 => unaryLevel (postfixExpr (expr rounds) rounds) rounds
  | k + 1 => binaryLevel (isLevelOp (k + 1)) rounds (levelExpr rounds k)

/-- What binds at least as much as the operators of a level ends in front of the token: it is no
suffix and no operator up to the level. -/
def Token.Ends (k : Nat) (t : Token) : Prop :=
  t.kind ∉ suffixKinds ∧ ∀ j ≤ k, isLevelOp j t.kind = false

theorem Token.Ends.mono {j k : Nat} {t : Token} (h : t.Ends k) (hjk : j ≤ k) : t.Ends j :=
  ⟨h.1, fun i hi => h.2 i (hi.trans hjk)⟩

/-- An operator is one of its level and of no other, and ends all that binds more. -/
theorem operatorKind_level {op : String} (h : op ∈ binaryOps) :
    operatorKind op ∉ suffixKinds ∧ operatorKind op ≠ .eof ∧ 0 < operatorLevel op ∧
      operatorLevel op ≤ 3 ∧ ∀ k ≤ 3, isLevelOp k (operatorKind op) = (k == operatorLevel op) := by
  have hall : ∀ op ∈ binaryOps, operatorKind op ∉ suffixKinds ∧ operatorKind op ≠ .eof ∧
      0 < operatorLevel op ∧ operatorLevel op ≤ 3 ∧
        ∀ k ≤ 3, isLevelOp k (operatorKind op) = (k == operatorLevel op) := by decide
  exact hall op h

/-! ### Reading a tree -/

/-- From the tokens, in enough rounds, the grammar of a level reads the tree, but for its places,
and ends in front of the next token. -/
def Expr.ReadAt (k : Nat) (e : Expr) (ts : List Token) : Prop :=
  ∀ ⦃rounds : Nat⦄, ts.length ≤ rounds → ∀ (src : TokenSource) (t : Token) (rest : List Token),
    t.Ends k → Yields Expr.strip (levelExpr rounds k) src (ts ++ t :: rest) e.strip (t :: rest)

/-- From the tokens, the grammar of the next level has read the tree as a left operand, and goes on
with the operators of that level. -/
def Expr.OpenAt (k : Nat) (e : Expr) (ts : List Token) : Prop :=
  ∀ ⦃rounds : Nat⦄, ts.length ≤ rounds → ∀ (src : TokenSource) (t : Token) (rest : List Token),
    t.Ends k → ∃ e' left, e'.strip = e.strip ∧ rounds < left + ts.length ∧
      levelExpr rounds (k + 1) src (ts ++ t :: rest) =
        binaryRest (isLevelOp (k + 1)) (levelExpr rounds k) left e' src (t :: rest)

section Reading

variable {k : Nat} {e left right : Expr} {ts us : List Token}

theorem Expr.ReadAt.openAt (h : e.ReadAt k ts) (hne : ts ≠ []) : e.OpenAt k ts := by
  intro rounds hrounds src t rest ht
  obtain ⟨e', hrun, hstrip⟩ := h hrounds src t rest ht
  have hpos := List.length_pos_iff.mpr hne
  refine ⟨e', rounds, hstrip, by omega, ?_⟩
  show (levelExpr rounds k >>= _) src (ts ++ t :: rest) = _
  rw [bind_ok hrun]

/-- Without an operator of the level behind it, a left operand is all there is. -/
theorem Expr.OpenAt.readAt (h : e.OpenAt k ts) : e.ReadAt (k + 1) ts := by
  intro rounds hrounds src t rest ht
  obtain ⟨e', left, hstrip, hleft, hrun⟩ := h hrounds src t rest (ht.mono (Nat.le_succ k))
  refine ⟨e', ?_, hstrip⟩
  rw [hrun, binaryRest_stop (by omega) e' (ht.2 (k + 1) (Nat.le_refl _))]

/-- With an operator of the level and its right operand behind it, a left operand becomes a longer
one. -/
theorem Expr.OpenAt.binary {op : Token} {span? : Option Span} (hleft : left.OpenAt k ts)
    (hright : right.ReadAt k us) (hends : op.Ends k) (hop : isLevelOp (k + 1) op.kind = true)
    (heof : op.kind ≠ .eof) : (Expr.binary left op.text right span?).OpenAt k (ts ++ op :: us) := by
  intro rounds hrounds src t rest ht
  rw [List.length_append, List.length_cons] at hrounds
  obtain ⟨left', more, hstrip, hmore, hrun⟩ :=
    hleft (show ts.length ≤ rounds by omega) src op (us ++ t :: rest) hends
  obtain ⟨right', hrun', hstrip'⟩ := hright (show us.length ≤ rounds by omega) src t rest ht
  -- The round that takes the operator is one that its token stands for.
  obtain ⟨more, rfl⟩ := Nat.exists_eq_add_one.mpr (show 0 < more by omega)
  refine ⟨.binary left' op.text right' (mergeSpans? left'.span? right'.span?), more, ?_, ?_, ?_⟩
  · rw [Expr.strip, Expr.strip, hstrip, hstrip']
  · rw [List.length_append, List.length_cons]
    omega
  · rw [List.append_assoc, List.cons_append, hrun, binaryRest, bind_ok (accept?_hit hop heof)]
    show (levelExpr rounds k >>= _) src (us ++ t :: rest) = _
    rw [bind_ok hrun']

/-- What one level reads, a looser one reads as well. -/
theorem Expr.ReadAt.mono {j : Nat} (h : e.ReadAt j ts) (hne : ts ≠ []) (hjk : j ≤ k) :
    e.ReadAt k ts := by
  induction hjk with
  | refl => exact h
  | step _ ih => exact (ih.openAt hne).readAt

/-- What a level reads is a whole expression. -/
theorem Expr.ReadAt.expr (h : e.ReadAt k ts) (hne : ts ≠ []) (hk : k ≤ 3)
    (hrounds : ts.length < rounds) (src : TokenSource) {t : Token} (ht : t.Ends 3)
    (rest : List Token) :
    Yields Expr.strip (Owl.expr rounds) src (ts ++ t :: rest) e.strip (t :: rest) := by
  obtain ⟨rounds, rfl⟩ := Nat.exists_eq_add_one.mpr (Nat.zero_lt_of_lt hrounds)
  exact h.mono hne hk (Nat.le_of_lt_succ hrounds) src t rest ht

/-- An operator of a level between a left operand of the level and what binds more. -/
theorem Expr.OpenAt.binary_of_kind {op : Token} {span? : Option Span} (hop : op.text ∈ binaryOps)
    (hkind : op.kind = operatorKind op.text) (hlevel : operatorLevel op.text = k + 1)
    (hleft : left.OpenAt k ts) (hright : right.ReadAt k us) :
    (Expr.binary left op.text right span?).OpenAt k (ts ++ op :: us) := by
  obtain ⟨hsuffix, heof, -, hle, hlevels⟩ := operatorKind_level hop
  rw [← hkind] at hsuffix heof hlevels
  have hends : op.Ends k := by
    refine ⟨hsuffix, fun j hj => ?_⟩
    rw [hlevels j (by omega), beq_eq_false_iff_ne]
    omega
  refine hleft.binary hright hends ?_ heof
  rw [hlevels (k + 1) (by omega), hlevel, beq_self_eq_true]

end Reading

/-- From the tokens, minus signs and what stands behind them are read as the tree. -/
def Expr.ReadSigned (e : Expr) (ts : List Token) : Prop :=
  ∀ ⦃rounds more : Nat⦄, ts.length ≤ rounds → ts.length ≤ more →
    ∀ (src : TokenSource) (t : Token) (rest : List Token), t.kind ∉ suffixKinds →
      Yields Expr.strip (unaryLevel (postfixExpr (expr rounds) rounds) more) src (ts ++ t :: rest)
        e.strip (t :: rest)

theorem Expr.ReadSigned.readAt {ts : List Token} (h : e.ReadSigned ts) : e.ReadAt 0 ts :=
  fun _ hrounds src t rest ht => h hrounds hrounds src t rest ht.1

theorem Expr.ReadSigned.minus {ts : List Token} {span? : Option Span} (h : e.ReadSigned ts)
    {sign : Token} (hkind : sign.kind = .minus) (htext : sign.text = "-") :
    (Expr.unary "-" e span?).ReadSigned (sign :: ts) := by
  intro rounds more hrounds hmore src t rest ht
  obtain ⟨more, rfl⟩ := Nat.exists_eq_add_one.mpr (Nat.zero_lt_of_lt hmore)
  obtain ⟨e', hrun, hstrip⟩ :=
    h (Nat.le_of_succ_le hrounds) (Nat.le_of_succ_le_succ hmore) src t rest ht
  refine ⟨.unary sign.text e' (some (extend (sign.span src.file) e'.span?)), ?_, ?_⟩
  · rw [List.cons_append, unaryLevel,
      bind_ok (accept?_hit (by rw [hkind]; rfl) (by rw [hkind]; decide))]
    exact bind_ok hrun _
  · rw [Expr.strip, Expr.strip, hstrip, htext]

/-! ### Expressions as operands -/

/-- The kinds that stand behind a whole expression. -/
def closingKinds : List TokenKind := [.rparen, .rbracket, .comma, .eof]

theorem ends_of_closing (ht : t.kind ∈ closingKinds) : t.Ends 3 := by
  have hall : ∀ kind ∈ closingKinds, kind ∉ suffixKinds ∧ ∀ j ≤ 3, isLevelOp j kind = false := by
    decide
  exact hall t.kind ht

/-- Where the tokens of the expression are read, in enough rounds and whatever follows them, it goes
on with suffixes of what is the expression but for its places. -/
def Expr.ReadsBack (e : Expr) : Prop :=
  ∀ ⦃rounds : Nat⦄, e.tokens.length ≤ rounds → ∀ (src : TokenSource) (rest : List Token),
    ∃ e' left, e'.strip = e.strip ∧ rounds < left + e.tokens.length ∧
      postfixExpr (expr rounds) rounds src (e.tokens ++ rest) =
        suffixes (expr rounds) left e' src rest

theorem Expr.Plain.tokens_head (h : e.Plain) :
    ∃ t ts, e.tokens = t :: ts ∧ t.kind ∈ [.int, .string, .ident, .lparen, .lbracket] := by
  induction h with
  | int | string | name | binary | unary | list => exact ⟨_, _, rfl, by simp⟩
  | call _ _ _ ih | field _ _ ih =>
    obtain ⟨t, ts, htokens, ht⟩ := ih
    exact ⟨t, _, by rw [Expr.tokens, htokens, List.cons_append], ht⟩

theorem Expr.Plain.tokens_ne_nil (h : e.Plain) : e.tokens ≠ [] := by
  obtain ⟨t, ts, htokens, -⟩ := h.tokens_head
  exact htokens ▸ List.cons_ne_nil t ts

section Operands

variable {e : Expr}

/-- An operand of unary and binary operators. -/
theorem Expr.ReadsBack.readSigned (h : e.ReadsBack) (hplain : e.Plain) :
    e.ReadSigned e.tokens := by
  intro rounds more hrounds hmore src t rest ht
  obtain ⟨e', left, hstrip, hleft, hrun⟩ := h hrounds src (t :: rest)
  have hpostfix : Yields Expr.strip (postfixExpr (expr rounds) rounds) src (e.tokens ++ t :: rest)
      e.strip (t :: rest) :=
    ⟨e', by rw [hrun, suffixes_stop (by omega) e' ht], hstrip⟩
  obtain ⟨t', ts', htokens, hhead⟩ := hplain.tokens_head
  rw [htokens, List.cons_append] at hpostfix ⊢
  refine unaryLevel_pass (Nat.lt_of_lt_of_le (by simp [htokens]) hmore) ?_ hpostfix
  rintro hminus
  rw [hminus] at hhead
  exact absurd hhead (by decide)

theorem Expr.ReadsBack.readAt (h : e.ReadsBack) (hplain : e.Plain) (k : Nat) :
    e.ReadAt k e.tokens :=
  (h.readSigned hplain).readAt.mono hplain.tokens_ne_nil (Nat.zero_le k)

/-- A whole expression. -/
theorem Expr.ReadsBack.expr (h : e.ReadsBack) (hplain : e.Plain)
    (hrounds : e.tokens.length < rounds) (ht : t.kind ∈ closingKinds) :
    Yields Expr.strip (Owl.expr rounds) src (e.tokens ++ t :: rest) e.strip (t :: rest) :=
  (h.readAt hplain 3).expr hplain.tokens_ne_nil (Nat.le_refl 3) hrounds src (ends_of_closing ht) rest

/-- What stands between the parentheses of an operator and its operands. -/
theorem Expr.ReadsBack.operator {left right : Expr} {op : String} {span? : Option Span}
    (hleft : left.ReadsBack) (hright : right.ReadsBack) (hplain : left.Plain)
    (hplain' : right.Plain) (hop : op ∈ binaryOps) :
    (Expr.binary left op right span?).ReadAt 3
      (left.tokens ++ .bare (operatorKind op) op :: right.tokens) := by
  obtain ⟨-, -, hpos, hle, -⟩ := operatorKind_level hop
  obtain ⟨k, hk⟩ := Nat.exists_eq_add_one.mpr hpos
  have hopen : left.OpenAt k left.tokens := (hleft.readAt hplain k).openAt hplain.tokens_ne_nil
  have hbinary : (Expr.binary left op right span?).OpenAt k
      (left.tokens ++ .bare (operatorKind op) op :: right.tokens) :=
    hopen.binary_of_kind hop rfl hk (hright.readAt hplain' k)
  exact hbinary.readAt.mono (by simp) (by omega)

end Operands

/-! ### Expressions in lists -/

section Lists

variable {expr : Parser Expr} {es : List Expr}

def EachRead (expr : Parser Expr) (src : TokenSource) (es : List Expr) : Prop :=
  ∀ e ∈ es, e.Plain ∧ ∀ ⦃t : Token⦄ ⦃rest : List Token⦄, t.kind ∈ closingKinds →
    Yields Expr.strip expr src (e.tokens ++ t :: rest) e.strip (t :: rest)

theorem EachRead.tail (h : EachRead expr src (e :: es)) : EachRead expr src es :=
  fun a ha => h a (List.mem_cons_of_mem _ ha)

theorem EachRead.head (h : EachRead expr src (e :: es)) (t : Token) (rest : List Token)
    (ht : t.kind ∈ closingKinds) :
    Yields Expr.strip expr src (e.tokens ++ (restTokens es ++ t :: rest)) e.strip
      (restTokens es ++ t :: rest) := by
  have he := (h e (List.mem_cons_self ..)).2
  cases es with
  | nil => exact he ht
  | cons e' es =>
    exact he (by decide)

theorem commaSeparated_yields (e : Expr) (h : EachRead expr src (e :: es))
    (hrounds : es.length < rounds) (t : Token) (rest : List Token) (ht : t.kind ∈ closingKinds)
    (hcomma : t.kind ≠ .comma) :
    Yields stripExprs (commaSeparated expr rounds) src (e.tokens ++ (restTokens es ++ t :: rest))
      (stripExprs (e :: es)) (t :: rest) := by
  induction es generalizing e rounds with
  | nil =>
    obtain ⟨rounds, rfl⟩ := Nat.exists_eq_add_one.mpr (Nat.zero_lt_of_lt hrounds)
    refine (h.head t rest ht).bind fun e' he => ⟨[e'], ?_, by simp [stripExprs, he]⟩
    exact bind_ok (accept_miss hcomma) _
  | cons e₂ es ih =>
    obtain ⟨rounds, rfl⟩ := Nat.exists_eq_add_one.mpr (Nat.zero_lt_of_lt hrounds)
    refine (h.head t rest ht).bind fun e' he => ?_
    obtain ⟨es', hrun, hes⟩ := ih e₂ h.tail (Nat.lt_of_succ_lt_succ hrounds)
    refine ⟨e' :: es', ?_, by rw [stripExprs, stripExprs, he, hes]⟩
    rw [restTokens, List.cons_append, bind_ok (accept_mark (by decide)), List.append_assoc]
    exact bind_ok hrun _

theorem Expr.Plain.isNext_tokens (h : e.Plain) {kind : TokenKind} (hkind : kind ∈ closingKinds)
    (us : List Token) : isNext kind src (e.tokens ++ us) = .ok false (e.tokens ++ us) := by
  obtain ⟨t, ts, htokens, ht⟩ := h.tokens_head
  have hall : ∀ k ∈ closingKinds, ∀ k' ∈ [TokenKind.int, .string, .ident, .lparen, .lbracket],
      (k' == k) = false := by decide
  rw [htokens, List.cons_append, isNext_ok, hall kind hkind t.kind ht]

theorem arguments_yields (h : EachRead expr src es) (hrounds : es.length ≤ rounds) :
    Yields stripExprs (arguments expr rounds) src (listTokens es ++ .mark .rparen :: rest)
      (stripExprs es) (.mark .rparen :: rest) := by
  cases es with
  | nil => exact ⟨[], rfl, rfl⟩
  | cons e es =>
    have hplain := (h e (List.mem_cons_self ..)).1
    obtain ⟨es', hrun, hes⟩ :=
      commaSeparated_yields e h hrounds (.mark .rparen) rest (by decide) (by decide)
    refine ⟨es', ?_, hes⟩
    rw [arguments, listTokens, List.append_assoc, bind_ok (hplain.isNext_tokens (by decide) _)]
    exact hrun

theorem moreElements_yields (h : EachRead expr src es) (hrounds : es.length < rounds) :
    Yields stripExprs (moreElements expr rounds) src (restTokens es ++ .mark .rbracket :: rest)
      (stripExprs es) (.mark .rbracket :: rest) := by
  induction es generalizing rounds with
  | nil =>
    obtain ⟨rounds, rfl⟩ := Nat.exists_eq_add_one.mpr (Nat.zero_lt_of_lt hrounds)
    exact ⟨[], bind_ok (accept_miss (by decide)) _, rfl⟩
  | cons e es ih =>
    obtain ⟨rounds, rfl⟩ := Nat.exists_eq_add_one.mpr (Nat.zero_lt_of_lt hrounds)
    have hplain := (h e (List.mem_cons_self ..)).1
    obtain ⟨e', hrun, he⟩ := h.head (.mark .rbracket) rest (by decide)
    obtain ⟨es', hrun', hes⟩ := ih h.tail (Nat.lt_of_succ_lt_succ hrounds)
    refine ⟨e' :: es', ?_, by rw [stripExprs, stripExprs, he, hes]⟩
    rw [moreElements, restTokens, List.cons_append, bind_ok (accept_mark (by decide)),
      List.append_assoc]
    show (isNext .rbracket >>= _) src _ = _
    rw [bind_ok (hplain.isNext_tokens (by decide) _)]
    show (expr >>= _) src _ = _
    rw [bind_ok hrun]
    exact bind_ok hrun' _

theorem elements_yields (h : EachRead expr src es) (hrounds : es.length ≤ rounds) :
    Yields stripExprs (elements expr rounds) src (listTokens es ++ .mark .rbracket :: rest)
      (stripExprs es) (.mark .rbracket :: rest) := by
  cases es with
  | nil => exact ⟨[], rfl, rfl⟩
  | cons e es =>
    have hplain := (h e (List.mem_cons_self ..)).1
    obtain ⟨e', hrun, he⟩ := h.head (.mark .rbracket) rest (by decide)
    obtain ⟨es', hrun', hes⟩ := moreElements_yields h.tail hrounds
    refine ⟨e' :: es', ?_, by rw [stripExprs, stripExprs, he, hes]⟩
    rw [elements, listTokens, List.append_assoc, bind_ok (hplain.isNext_tokens (by decide) _)]
    show (expr >>= _) src _ = _
    rw [bind_ok hrun]
    exact bind_ok hrun' _

end Lists

/-! ### Plain expressions -/

theorem length_le_restTokens (es : List Expr) : es.length ≤ (restTokens es).length := by
  induction es with
  | nil => simp
  | cons e es ih => simp [restTokens]; omega

theorem length_le_listTokens (es : List Expr) : es.length ≤ (listTokens es).length + 1 := by
  cases es with
  | nil => simp
  | cons e es =>
    have := length_le_restTokens es
    simp [listTokens]
    omega

theorem tokens_length_le_restTokens (h : e ∈ es) : e.tokens.length ≤ (restTokens es).length := by
  induction h with
  | head => simp [restTokens]; omega
  | tail _ _ ih => simp [restTokens]; omega

theorem tokens_length_le_listTokens (h : e ∈ es) : e.tokens.length ≤ (listTokens es).length := by
  cases h with
  | head => simp [listTokens]
  | tail _ h =>
    have := tokens_length_le_restTokens h
    simp [listTokens]
    omega

theorem eachRead_of_readsBack (hplain : ∀ e ∈ es, e.Plain) (h : ∀ e ∈ es, e.ReadsBack)
    (hrounds : (listTokens es).length < rounds) :
    EachRead (expr rounds) src es := fun e he =>
  ⟨hplain e he, fun _ _ ht => (h e he).expr (hplain e he)
    (Nat.lt_of_le_of_lt (tokens_length_le_listTokens he) hrounds) ht⟩

/-- An expression that is read without suffixes. -/
theorem Expr.ReadsBack.of_primary (hplain : e.Plain)
    (h : ∀ rounds src rest, e.tokens.length ≤ rounds →
      Yields Expr.strip (primary (Owl.expr rounds) rounds) src (e.tokens ++ rest) e.strip rest) :
    e.ReadsBack := by
  intro rounds hrounds src rest
  obtain ⟨e', hrun, hstrip⟩ := h rounds src rest hrounds
  obtain ⟨_, _, htokens, -⟩ := hplain.tokens_head
  exact ⟨e', rounds, hstrip, by simp [htokens], by rw [postfixExpr, bind_ok hrun]⟩

theorem primary_int {expr : Parser Expr} {text : String} {value : Int}
    (h : Numeral.readInt text = .ok value) (pos : Position) (span? : Option Span) :
    Yields Expr.strip (primary expr rounds) src (⟨.int, text, pos⟩ :: rest)
      (Expr.int value span?).strip rest := by
  have hnumeral : numeral (Numeral.readInt text) src rest = .ok value rest := by
    rw [h]
    rfl
  exact ⟨_, bind_ok hnumeral _, rfl⟩

theorem primary_parens {expr : Parser Expr} {v : Expr}
    (h : Yields Expr.strip expr src ts v (.mark .rparen :: rest)) :
    Yields Expr.strip (primary expr rounds) src (.mark .lparen :: ts) v rest := by
  obtain ⟨e, hrun, he⟩ := h
  refine ⟨e, ?_, he⟩
  show (expr >>= _) src ts = _
  rw [bind_ok hrun]
  exact bind_ok (expect_taken _ (by decide)) _

theorem Expr.ReadAt.parens {k : Nat} (h : e.ReadAt k ts) (hne : ts ≠ []) (hk : k ≤ 3)
    (rounds : Nat) (hrounds : ts.length < rounds) (src : TokenSource) (rest : List Token) :
    Yields Expr.strip (primary (Owl.expr rounds) rounds) src
      (.mark .lparen :: (ts ++ .mark .rparen :: rest)) e.strip rest :=
  primary_parens (h.expr hne hk hrounds src (ends_of_closing (by decide)) rest)

theorem primary_brackets {expr : Parser Expr}
    (h : Yields stripExprs (elements expr rounds) src ts (stripExprs es)
      (.mark .rbracket :: rest)) :
    Yields Expr.strip (primary expr rounds) src (.mark .lbracket :: ts) (Expr.list es none).strip
      rest := by
  obtain ⟨es', hrun, hes⟩ := h
  let opening := (Token.mark .lbracket).span src.file
  refine ⟨.list es' (some (opening.merge ((Token.mark .rbracket).span src.file))), ?_, ?_⟩
  · show (elements expr rounds >>= _) src ts = _
    rw [bind_ok hrun]
    exact bind_ok (expect_taken _ (by decide)) _
  · rw [Expr.strip, Expr.strip, hes]

theorem suffixes_call {expr : Parser Expr} {args : List Expr} (base : Expr)
    (h : Yields stripExprs (arguments expr rounds) src ts (stripExprs args)
      (.mark .rparen :: rest)) :
    ∃ args' span, stripExprs args' = stripExprs args ∧
      suffixes expr (rounds + 1) base src (.mark .lparen :: ts) =
        suffixes expr rounds (.call base args' (some span)) src rest := by
  obtain ⟨args', hrun, hargs⟩ := h
  let opening := base.span?.getD ((Token.mark .lparen).span src.file)
  refine ⟨args', opening.merge ((Token.mark .rparen).span src.file), hargs, ?_⟩
  rw [suffixes, bind_ok (accept?_hit rfl (by decide))]
  show (arguments expr rounds >>= _) src ts = _
  rw [bind_ok hrun]
  exact bind_ok (expect_taken _ (by decide)) _

theorem suffixes_field {expr : Parser Expr} (base : Expr) (field : String) :
    ∃ span, suffixes expr (rounds + 1) base src (.mark .dot :: .bare .ident field :: rest) =
      suffixes expr rounds (.field base field (some span)) src rest := by
  let span := (Token.bare .ident field).span src.file
  refine ⟨(base.span?.map (·.merge span)).getD span, ?_⟩
  rw [suffixes, bind_ok (accept?_miss rfl)]
  show (accept .dot >>= _) src _ = _
  rw [bind_ok (accept_mark (by decide))]
  have hname : expect .ident "field name after '.'" src (.bare .ident field :: rest) =
      .ok (.bare .ident field) rest := expect_hit _ rfl (by decide)
  exact bind_ok hname _

/-- Plain expressions are read back. -/
theorem Expr.Plain.readsBack (h : e.Plain) : e.ReadsBack := by
  -- calls and fields are suffixes of what is read before them; all else is read as a whole
  induction h with
  | int nonneg short =>
    exact .of_primary (.int nonneg short) fun _ _ _ _ =>
      primary_int (Numeral.readInt_toString nonneg short) _ _
  | string inLine => exact .of_primary (.string inLine) fun _ _ _ _ => ⟨_, rfl, rfl⟩
  | name isName => exact .of_primary (.name isName) fun _ _ _ _ => ⟨_, rfl, rfl⟩
  | @binary left right op span? isLeft isOp isRight ihl ihr =>
    refine .of_primary (.binary isLeft isOp isRight) fun rounds src rest hrounds => ?_
    simp only [Expr.tokens, List.cons_append, List.append_assoc, List.nil_append] at hrounds ⊢
    have hread : (Expr.binary left op right span?).ReadAt 3 _ :=
      ihl.operator ihr isLeft isRight isOp
    have hparens :=
      hread.parens (by simp) (Nat.le_refl 3) rounds (by simp at hrounds ⊢; omega) src rest
    rwa [List.append_assoc, List.cons_append] at hparens
  | @unary operand span? isOperand ih =>
    refine .of_primary (.unary isOperand) fun rounds src rest hrounds => ?_
    simp only [Expr.tokens, List.cons_append, List.append_assoc, List.nil_append] at hrounds ⊢
    have hminus : (Expr.unary "-" operand span?).ReadSigned (.bare .minus "-" :: _) :=
      (ih.readSigned isOperand).minus rfl rfl
    exact hminus.readAt.parens (by simp) (Nat.zero_le 3) rounds (by simp at hrounds ⊢; omega) src rest
  | list areElements ihs =>
    refine .of_primary (.list areElements) fun rounds src rest hrounds => ?_
    rename_i es _
    have hlength := length_le_listTokens es
    simp only [Expr.tokens, List.cons_append, List.append_assoc, List.nil_append, List.length_cons,
      List.length_append] at hrounds ⊢
    refine primary_brackets (elements_yields ?_ (by omega))
    exact eachRead_of_readsBack areElements ihs (by omega)
  | @call callee args _ isCallee unknown areArgs ih ihs =>
    intro rounds hrounds src rest
    have hlength := length_le_listTokens args
    simp only [Expr.tokens, List.cons_append, List.append_assoc, List.nil_append,
      List.length_append, List.length_cons, List.length_nil] at hrounds ⊢
    obtain ⟨callee', left, hstrip, hleft, hrun⟩ :=
      ih (show callee.tokens.length ≤ rounds by omega) src
        (.mark .lparen :: (listTokens args ++ .mark .rparen :: rest))
    -- the callee's tokens used up no more rounds than there are of them, so one is left
    obtain ⟨left, rfl⟩ := Nat.exists_eq_add_one.mpr (show 0 < left by omega)
    have hargs : Yields stripExprs (arguments (Owl.expr rounds) left) src
        (listTokens args ++ .mark .rparen :: rest) (stripExprs args) (.mark .rparen :: rest) :=
      arguments_yields (eachRead_of_readsBack areArgs ihs (by omega)) (by omega)
    obtain ⟨args', span, hargs', hcall⟩ := suffixes_call callee' hargs
    refine ⟨_, left, ?_, by omega, hrun.trans hcall⟩
    rw [Expr.strip, Expr.strip, hstrip, hargs']
  | @field object field _ isObject isName ih =>
    intro rounds hrounds src rest
    simp only [Expr.tokens, List.cons_append, List.append_assoc, List.nil_append,
      List.length_append, List.length_cons, List.length_nil] at hrounds ⊢
    obtain ⟨object', left, hstrip, hleft, hrun⟩ :=
      ih (show object.tokens.length ≤ rounds by omega) src
        (.mark .dot :: .bare .ident field :: rest)
    obtain ⟨left, rfl⟩ := Nat.exists_eq_add_one.mpr (show 0 < left by omega)
    obtain ⟨span, hfield⟩ := suffixes_field object' field
    refine ⟨_, left, ?_, by omega, hrun.trans hfield⟩
    rw [Expr.strip, Expr.strip, hstrip]

end Owl
