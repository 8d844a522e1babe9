/-
Emitted expressions read back as the same expression.
-/
import Owl.Proofs.ReadBack.Parsing

namespace Owl

open Owl.Parser

variable {src : TokenSource}

/-! ### Statements -/

theorem restTokens_kind_ne {es : List Expr} {kind : TokenKind} (hcomma : kind ≠ .comma)
    (h : ∀ e ∈ es, ∀ t ∈ e.tokens, t.kind ≠ kind) : ∀ t ∈ restTokens es, t.kind ≠ kind := by
  induction es with
  | nil => simp [restTokens]
  | cons e es ih =>
    obtain ⟨hfirst, hmore⟩ := List.forall_mem_cons.mp h
    simp only [restTokens, List.forall_mem_cons, List.forall_mem_append]
    exact ⟨hcomma.symm, hfirst, ih hmore⟩

theorem listTokens_kind_ne {es : List Expr} {kind : TokenKind} (hcomma : kind ≠ .comma)
    (h : ∀ e ∈ es, ∀ t ∈ e.tokens, t.kind ≠ kind) : ∀ t ∈ listTokens es, t.kind ≠ kind := by
  cases es with
  | nil => simp [listTokens]
  | cons e es =>
    obtain ⟨hfirst, hmore⟩ := List.forall_mem_cons.mp h
    simp only [listTokens, List.forall_mem_append]
    exact ⟨hfirst, restTokens_kind_ne hcomma hmore⟩

theorem Expr.Plain.kind_ne_assign {e : Expr} (h : e.Plain) : ∀ t ∈ e.tokens, t.kind ≠ .assign := by
  induction h with
  | int | string | name => simp [Expr.tokens]
  | binary _ isOp _ ihl ihr =>
    have hop : ∀ op ∈ binaryOps, operatorKind op ≠ .assign := by decide
    simp only [Expr.tokens, List.forall_mem_cons, List.forall_mem_append]
    exact ⟨by decide, ihl, hop _ isOp, ihr, by decide, List.forall_mem_nil _⟩
  | unary _ ih =>
    simp only [Expr.tokens, List.forall_mem_cons, List.forall_mem_append]
    exact ⟨by decide, by decide, ih, by decide, List.forall_mem_nil _⟩
  | call _ _ _ ih ihs =>
    simp only [Expr.tokens, List.forall_mem_cons, List.forall_mem_append]
    exact ⟨ih, by decide, listTokens_kind_ne (by decide) ihs, by decide, List.forall_mem_nil _⟩
  | field _ _ ih =>
    simp only [Expr.tokens, List.forall_mem_cons, List.forall_mem_append]
    exact ⟨ih, by decide, (fun h => by cases h), List.forall_mem_nil _⟩
  | list _ ihs =>
    simp only [Expr.tokens, List.forall_mem_cons, List.forall_mem_append]
    exact ⟨by decide, listTokens_kind_ne (by decide) ihs, by decide, List.forall_mem_nil _⟩

theorem isSecond_false {kind : TokenKind} {ts : List Token} (h : ∀ t ∈ ts, t.kind ≠ kind) :
    isSecond kind src ts = .ok false ts := by
  rcases ts with _ | ⟨t, _ | ⟨t', ts⟩⟩
  · rfl
  · rfl
  · show Parsed.ok (t'.kind == kind) _ = _
    rw [beq_eq_false_iff_ne.mpr (h t' (by simp))]

theorem peek_ok {t : Token} {ts : List Token} : peek src (t :: ts) = .ok t (t :: ts) := rfl

/-- What starts like a plain expression and holds no assignment sign is read as an expression. -/
theorem item_expr {t : Token} {ts rest : List Token} {rounds : Nat} {e : Expr}
    (ht : t.kind ∈ [.int, .string, .ident, .lparen, .lbracket])
    (hassign : ∀ u ∈ t :: ts, u.kind ≠ .assign) (h : expr (rounds + 1) src (t :: ts) = .ok e rest) :
    item (rounds + 1) src (t :: ts) = .ok (.stmt (.expr e e.span?)) rest := by
  have hexpr : exprStmt (expr (rounds + 1)) src (t :: ts) = .ok (.expr e e.span?) rest :=
    bind_ok h _
  have hsecond : isSecond .assign src (t :: ts) = .ok false (t :: ts) := isSecond_false hassign
  have hstatement : statement (rounds + 1) src (t :: ts) = .ok (.expr e e.span?) rest := by
    rw [statement, bind_ok peek_ok]
    simp only [List.mem_cons, List.not_mem_nil, or_false] at ht
    rcases ht with ht | ht | ht | ht | ht <;> simp only [ht]
    case inr.inr.inl =>
      rw [bind_ok hsecond]
      exact hexpr
    all_goals exact hexpr
  rw [item, bind_ok peek_ok]
  simp only [List.mem_cons, List.not_mem_nil, or_false] at ht
  rcases ht with ht | ht | ht | ht | ht <;> simp only [ht] <;> exact bind_ok hstatement _

/-! ### Programs -/

/-- Reading is over where an end mark is all that an item leaves. -/
theorem Reading.itemsFrom_one {bound rounds : Nat} {t mark : Token} {ts : List Token} {i : Item}
    (ht : t.kind ≠ .eof) (hmark : mark.kind = .eof) (h : item bound src (t :: ts) = .ok i [mark]) :
    itemsFrom src bound (rounds + 2) (t :: ts) = ⟨[i], none, [mark]⟩ := by
  have hend : itemsFrom src bound (rounds + 1) [mark] = ⟨[], none, [mark]⟩ := by
    rw [itemsFrom, if_pos (by simp [hmark])]
  rw [itemsFrom, if_neg (by simpa using ht), h]
  simp only [hend]

/-- The tokens of a plain expression and an end mark are read as a program of one statement. -/
theorem Expr.Plain.parse_tokens {e : Expr} (h : e.Plain) (file : String) :
    ∃ p, parse file (e.tokens ++ [Token.bare .eof ""]) = .ok p ∧
      p.strip = (Program.mk [] [] [.expr e none] none).strip := by
  let mark : Token := .bare .eof ""
  obtain ⟨t, ts, htokens, ht⟩ := h.tokens_head
  -- the bound that reading sets is above the number of tokens, which is enough for an expression
  obtain ⟨bound, hbound⟩ : ∃ n, 2 * ((e.tokens ++ [mark]).length + 1) = n + 2 :=
    Nat.exists_eq_add_of_le' (by omega)
  have hrounds : e.tokens.length < bound + 2 := by simp at hbound; omega
  obtain ⟨e', hrun, he⟩ : Yields Expr.strip (expr (bound + 2)) ⟨file, mark⟩ (e.tokens ++ [mark])
      e.strip [mark] := h.readsBack.expr h hrounds (by decide)
  have hassign : ∀ u ∈ e.tokens ++ [mark], u.kind ≠ .assign := by
    intro u hu
    rcases List.mem_append.mp hu with hu | hu
    · exact h.kind_ne_assign u hu
    · rw [List.mem_singleton.mp hu]
      decide
  have heof : t.kind ≠ .eof := by
    rintro heof
    rw [heof] at ht
    exact absurd ht (by decide)
  have hreading : Reading.ofTokens file (e.tokens ++ [mark]) =
      ⟨[.stmt (.expr e' e'.span?)], none, [mark]⟩ := by
    rw [Reading.ofTokens, List.getLast?_concat]
    simp only [hbound]
    rw [htokens, List.cons_append] at hrun hassign ⊢
    exact Reading.itemsFrom_one heof rfl (item_expr ht hassign hrun)
  refine ⟨⟨[], [], [.expr e' e'.span?], none⟩, ?_, ?_⟩
  · rw [parse, hreading]
    rfl
  · simp [Program.strip, stripStmts, Stmt.strip, he]

/-- **Emitted expressions read back as the same expression.**  The code of a plain expression is a
text that has tokens, and these are read as a program whose only item is the expression as a
statement, but for its places. -/
theorem emitExpr_read_back (e : Expr) (h : e.Plain) (counter : Nat) (file : String) :
    ∃ text tokens p, emitExpr e counter = (.ok text, counter) ∧ tokenize text = .ok tokens ∧
      parse file tokens = .ok p ∧ p.strip = (Program.mk [] [] [.expr e none] none).strip := by
  have hlexes : Lexes e.code e.tokens [] := by simpa using h.lexes .nil .nil
  obtain ⟨tokens, htokens, hstrip⟩ := hlexes.tokenize
  obtain ⟨q, hq, hprogram⟩ := h.parse_tokens file
  have halike : ReadAlike (parse file tokens) (parse file (e.tokens ++ [.bare .eof ""])) := by
    rw [← hstrip]
    exact parse_alike file (by simp [Token.strip])
  rw [hq] at halike
  generalize hp : parse file tokens = result at halike
  cases halike with
  | program hsame =>
    exact ⟨_, tokens, _, by rw [emitExpr_plain h]; rfl, htokens, hp, hsame.trans hprogram⟩

/-- A field of an integer, called with an escaped string and a list, less a negated name. -/
def nestedExpr : Expr :=
  .binary
    (.call (.field (.int 42 none) "x" none)
      [.string "a\"\\b" none, .list [.name "y" none] none] none)
    "-" (.unary "-" (.name "z" none) none) none

theorem emitExpr_read_back_nested :
    nestedExpr.Plain ∧ ∃ text tokens p, emitExpr nestedExpr 0 = (.ok text, 0) ∧
      tokenize text = .ok tokens ∧ parse "" tokens = .ok p ∧
      p.strip = (Program.mk [] [] [.expr nestedExpr none] none).strip := by
  have hx : IsName "x".toList := by decide
  have hy : IsName "y".toList := by decide
  have hz : IsName "z".toList := by decide
  have hint : (Expr.int 42 none).Plain := .int (by decide) (by decide)
  have hargs : ∀ a ∈ [Expr.string "a\"\\b" none, .list [.name "y" none] none], a.Plain := by
    simp only [List.forall_mem_cons, List.not_mem_nil, false_imp_iff, implies_true, and_true]
    refine ⟨.string (by decide), .list ?_⟩
    simpa using Expr.Plain.name hy
  have hplain : nestedExpr.Plain :=
    .binary (.call (.field hint hx) (by simp) hargs) (by decide) (.unary (.name hz))
  exact ⟨hplain, emitExpr_read_back nestedExpr hplain 0 ""⟩

end Owl
