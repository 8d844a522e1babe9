/-
Two readings side by side.

Of a token, the grammars look at its kind and its text only.  So tokens that show the
same kinds and texts are read in the same way, as far as two readings can be compared
at all.  There is more than one way to compare them, but the grammars are walked
through once, for all of them.

* `Comparison.Alike C view p q` — the parsers `p` and `q` are alike by `C`, and
  what they read has the same `view`;
* `expr_alike`, `statement_alike`, `item_alike` — the grammars are alike.
-/
import Owl.Proofs.Layout.Trees
import Owl.Tree.Parser

namespace Owl

def Token.strip (t : Token) : Token := ⟨t.kind, t.text, .start⟩

theorem Token.kind_eq {t u : Token} (h : t.strip = u.strip) : t.kind = u.kind :=
  (Token.mk.inj h).1

theorem Token.text_eq {t u : Token} (h : t.strip = u.strip) : t.text = u.text :=
  (Token.mk.inj h).2.1

namespace Parser

/-- A way to compare parsers that read from lists of their own, where the next tokens show the same.
What they read is compared by a view. -/
structure Comparison where
  /-- What is compared of tokens. -/
  shown : Token → Token
  /-- Bounds on rounds under which readings are compared. -/
  Rounds : Nat → Nat → Prop
  /-- The parsers are alike in front of two tokens. -/
  At : {α γ : Type} → (α → γ) → Token → Token → Parser α → Parser α → Prop
  /-- The parsers are alike where a token was just taken, and may be found at fault. -/
  Behind : {α γ : Type} → (α → γ) → Parser α → Parser α → Prop
  strip_eq {t u : Token} (h : shown t = shown u) : t.strip = u.strip
  rounds_succ {m n : Nat} (h : Rounds m n) : Rounds (m + 1) (n + 1)
  pure {α γ : Type} {view : α → γ} {a b : α} (h : view a = view b) (t u : Token) :
    At view t u (Pure.pure a) (Pure.pure b)
  bind {α β γ δ : Type} {view : α → γ} {view' : β → δ} {t u : Token} {p q : Parser α}
    {f g : α → Parser β} (hp : At view t u p q)
    (hf : ∀ a b, view a = view b → ∀ t u, shown t = shown u → At view' t u (f a) (g b)) :
    At view' t u (p >>= f) (q >>= g)
  stop {α γ : Type} {view : α → γ} (cause : ParseStop) (t u : Token) :
    At view t u (stop cause) (stop cause)
  bounded {ι α γ : Type} {view : α → γ} {I : ι → ι → Prop} {p q : Nat → ι → Parser α}
    (hp : ∀ i, p 0 i = Parser.stop .bound) (hq : ∀ i, q 0 i = Parser.stop .bound)
    (step : ∀ m n, Rounds m n →
      (∀ i j, I i j → ∀ t u, shown t = shown u → At view t u (p m i) (q n j)) →
      ∀ i j, I i j → ∀ t u, shown t = shown u → At view t u (p (m + 1) i) (q (n + 1) j))
    {m n : Nat} (h : Rounds m n) {i j : ι} (hij : I i j) {t u : Token} (htu : shown t = shown u) :
    At view t u (p m i) (q n j)
  peek_bind {β δ : Type} {view : β → δ} {f g : Token → Parser β} {t u : Token}
    (htu : shown t = shown u) (h : At view t u (f t) (g u)) : At view t u (peek >>= f) (peek >>= g)
  advance {t u : Token} (htu : shown t = shown u) : At shown t u advance advance
  failHere {α γ : Type} {view : α → γ} (fault : GrammarFault) {t u : Token}
    (htu : shown t = shown u) : At view t u (failHere fault : Parser α) (failHere fault)
  spanOf (t u t' u' : Token) : At (fun _ : Span => ()) t' u' (spanOf t) (spanOf u)
  expect_bind {β δ : Type} {view : β → δ} {kind : TokenKind} {what : String}
    {f g : Token → Parser β} (hkind : kind ≠ .eof)
    (hf : ∀ t u, shown t = shown u → Behind view (f t) (g u)) {t u : Token}
    (htu : shown t = shown u) : At view t u (expect kind what >>= f) (expect kind what >>= g)
  behind {α γ : Type} {view : α → γ} {p q : Parser α}
    (h : ∀ t u, shown t = shown u → At view t u p q) : Behind view p q
  failAt {α γ : Type} {view : α → γ} {t u : Token} (fault : GrammarFault)
    (htu : shown t = shown u) : Behind view (failAt t fault : Parser α) (failAt u fault)

namespace Comparison

variable {C : Comparison} {α β γ δ : Type} {view : α → γ} {view' : β → δ}

def Alike (C : Comparison) (view : α → γ) (p q : Parser α) : Prop :=
  ∀ t u, C.shown t = C.shown u → C.At view t u p q

theorem kind_eq (C : Comparison) {t u : Token} (h : C.shown t = C.shown u) : t.kind = u.kind :=
  Token.kind_eq (C.strip_eq h)

theorem text_eq (C : Comparison) {t u : Token} (h : C.shown t = C.shown u) : t.text = u.text :=
  Token.text_eq (C.strip_eq h)

namespace Alike

theorem pure {a b : α} (h : view a = view b) :
    C.Alike view (Pure.pure a : Parser α) (Pure.pure b) :=
  fun t u _ => C.pure h t u

theorem stop (cause : ParseStop) : C.Alike view (Parser.stop cause) (Parser.stop cause) :=
  fun t u _ => C.stop cause t u

/-- What follows is alike for values with the same view. -/
theorem bind {p q : Parser α} {f g : α → Parser β} (hp : C.Alike view p q)
    (hf : ∀ a b, view a = view b → C.Alike view' (f a) (g b)) :
    C.Alike view' (p >>= f) (q >>= g) :=
  fun t u htu => C.bind (hp t u htu) hf

/-- Where the view is the value itself, what follows may depend on it. -/
theorem bind_id {p q : Parser α} {f g : α → Parser β} (hp : C.Alike id p q)
    (hf : ∀ a, C.Alike view' (f a) (g a)) : C.Alike view' (p >>= f) (q >>= g) := by
  refine hp.bind fun a b h => ?_
  obtain rfl : a = b := h
  exact hf a

/-- A parser that may find nothing. -/
theorem bind_option {p q : Parser (Option α)} {f g : Option α → Parser β}
    (hp : C.Alike (Option.map view) p q) (hnone : C.Alike view' (f none) (g none))
    (hsome : ∀ a b, view a = view b → C.Alike view' (f (some a)) (g (some b))) :
    C.Alike view' (p >>= f) (q >>= g) := by
  refine hp.bind fun a? b? h => ?_
  cases a? <;> cases b? <;> simp only [Option.map_some, Option.map_none, reduceCtorEq] at h
  · exact hnone
  · exact hsome _ _ (Option.some.inj h)

theorem map {f : α → β} {p q : Parser α} (hp : C.Alike view p q)
    (hf : ∀ a b, view a = view b → view' (f a) = view' (f b)) :
    C.Alike view' (f <$> p) (f <$> q) :=
  hp.bind fun a b h => .pure (hf a b h)

/-- Both parsers take the same branch. -/
theorem ite {b : Bool} {p q p' q' : Parser α} (ht : C.Alike view p q)
    (hf : C.Alike view p' q') : C.Alike view (if b then p else p') (if b then q else q') := by
  cases b
  · exact hf
  · exact ht

/-- Parsers that look at the next token see the same kind and text. -/
theorem peek_bind {f g : Token → Parser β}
    (h : ∀ t u, C.shown t = C.shown u → C.At view' t u (f t) (g u)) :
    C.Alike view' (peek >>= f) (peek >>= g) :=
  fun t u htu => C.peek_bind htu (h t u htu)

/-- Parsers with bounds are alike if they are where the bounds are not yet reached. -/
theorem bounded {p q : Nat → Parser α} (hp : p 0 = Parser.stop .bound)
    (hq : q 0 = Parser.stop .bound)
    (step : ∀ m n, C.Rounds m n → C.Alike view (p m) (q n) →
      C.Alike view (p (m + 1)) (q (n + 1))) {m n : Nat} (h : C.Rounds m n) :
    C.Alike view (p m) (q n) := by
  intro t u htu
  exact C.bounded (I := fun _ _ : Unit => True) (p := fun m _ => p m) (q := fun n _ => q n)
    (fun _ => hp) (fun _ => hq)
    (fun m n hmn ih _ _ _ => step m n hmn fun t u => ih () () trivial t u) h (i := ()) (j := ())
    trivial htu

end Alike

end Comparison

/-! ### Single tokens -/

section Tokens

variable {C : Comparison} {α γ : Type} {view : α → γ} {m n : Nat}

theorem isNext_alike (kind : TokenKind) : C.Alike id (isNext kind) (isNext kind) :=
  .peek_bind fun t u htu => C.pure (by rw [C.kind_eq htu]) t u

theorem advance_alike : C.Alike C.shown advance advance := fun _ _ htu => C.advance htu

theorem failHere_alike (fault : GrammarFault) :
    C.Alike view (failHere fault) (failHere fault) :=
  fun _ _ htu => C.failHere fault htu

/-- Both parsers take a token, or both take none. -/
theorem accept?_alike (isKind : TokenKind → Bool) :
    C.Alike (Option.map C.shown) (accept? isKind) (accept? isKind) := by
  refine .peek_bind fun t u htu => ?_
  have hadvance : C.Alike (Option.map C.shown) (some <$> advance) (some <$> advance) :=
    advance_alike.map fun t u h => congrArg some h
  rw [C.kind_eq htu]
  exact hadvance.ite (.pure rfl) t u htu

theorem accept_alike (kind : TokenKind) : C.Alike id (accept kind) (accept kind) := by
  refine (accept?_alike _).bind fun t? u? h => .pure ?_
  cases t? <;> cases u? <;> simp_all

theorem expect_alike (kind : TokenKind) (what : String) :
    C.Alike C.shown (expect kind what) (expect kind what) :=
  (isNext_alike kind).bind_id fun _ => .ite advance_alike (failHere_alike _)

/-- Spans may differ. -/
theorem spanOf_alike (t u : Token) : C.Alike (fun _ : Span => ()) (spanOf t) (spanOf u) :=
  fun t' u' _ => C.spanOf t u t' u'

/-- Every item takes up a round, and so does it on both sides. -/
theorem commaSeparated_alike {p q : Parser α} (h : C.Alike view p q) (hmn : C.Rounds m n) :
    C.Alike (List.map view) (commaSeparated p m) (commaSeparated q n) := by
  refine .bounded rfl rfl (fun m n hmn ih => ?_) hmn
  refine h.bind fun a b hab => (accept_alike _).bind_id fun _ => .ite ?_ (.pure (by simp [hab]))
  exact ih.bind fun as bs habs => .pure (by simp [hab, habs])

/-- Both lists end at the same closing token. -/
theorem manyUntil_alike {p q : Parser α} (h : C.Alike view p q) (isClosing : TokenKind → Bool)
    (hmn : C.Rounds m n) :
    C.Alike (List.map view) (manyUntil isClosing p m) (manyUntil isClosing q n) := by
  refine .bounded rfl rfl (fun m n hmn ih => .peek_bind fun t u htu => ?_) hmn
  rw [C.kind_eq htu]
  refine Comparison.Alike.ite (.pure rfl) (h.bind fun a b hab => ?_) t u htu
  exact ih.bind fun as bs habs => .pure (by simp [hab, habs])

end Tokens

end Parser

open Owl.Parser

variable {C : Comparison} {m n : Nat}

/-! ### Types, imports and patterns -/

theorem typeExpr_alike (hmn : C.Rounds m n) : C.Alike TypeExpr.strip (typeExpr m) (typeExpr n) := by
  refine .bounded rfl rfl (fun m n hmn ih => ?_) hmn
  refine (expect_alike _ _).bind fun t u h => (accept_alike _).bind_id fun _ => .ite ?_ ?_
  · refine (commaSeparated_alike ih hmn).bind fun ps qs hparams => ?_
    refine (expect_alike _ _).bind fun _ _ _ => .pure ?_
    simp only [TypeExpr.strip, stripTypes_eq_map, C.text_eq h, hparams]
  · exact .pure (by simp only [TypeExpr.strip, C.text_eq h])

theorem typeAfter?_alike (mark : TokenKind) (hmn : C.Rounds m n) :
    C.Alike (Option.map TypeExpr.strip) (typeAfter? mark m) (typeAfter? mark n) := by
  refine (accept_alike _).bind_id fun _ => .ite ?_ (.pure rfl)
  exact (typeExpr_alike hmn).map fun _ _ h => congrArg some h

theorem pathParts_alike (hmn : C.Rounds m n) : C.Alike id (pathParts m) (pathParts n) := by
  refine .bounded rfl rfl (fun m n hmn ih => ?_) hmn
  refine (accept_alike _).bind_id fun _ => .ite ?_ (.pure rfl)
  refine (expect_alike _ _).bind fun t u h => ih.bind_id fun parts => .pure ?_
  rw [C.text_eq h]

theorem alias?_alike (what : String) : C.Alike id (alias? what) (alias? what) := by
  refine (accept_alike _).bind_id fun _ => .ite ?_ (.pure rfl)
  exact (expect_alike _ _).bind fun t u h => .pure (by rw [C.text_eq h])

theorem importedName_alike : C.Alike id importedName importedName := by
  refine (expect_alike _ _).bind fun t u h => (alias?_alike _).bind_id fun a? => .pure ?_
  rw [C.text_eq h]

/-- What an import brings in has no place: its path and names are the same. -/
theorem importDecl_alike (hmn : C.Rounds m n) :
    C.Alike Import.strip (importDecl m) (importDecl n) := by
  refine (expect_alike _ _).bind fun _ _ _ => (expect_alike _ _).bind fun _ _ _ => ?_
  refine (pathParts_alike hmn).bind_id fun parts => (expect_alike _ _).bind fun _ _ _ => ?_
  refine .ite ?_ ?_
  · refine (expect_alike _ _).bind fun t u h => (alias?_alike _).bind_id fun a? => .pure ?_
    simp only [Import.strip, C.text_eq h]
  · refine (commaSeparated_alike importedName_alike hmn).bind fun ns ms h => .pure ?_
    simp only [List.map_id_fun, id_eq] at h
    simp only [Import.strip, h]

theorem param_alike (hmn : C.Rounds m n) : C.Alike Param.strip (param m) (param n) := by
  refine (expect_alike _ _).bind fun t u h => (typeAfter?_alike _ hmn).bind fun a b hab => ?_
  exact .pure (by simp only [Param.strip, C.text_eq h, hab])

theorem params_alike (hmn : C.Rounds m n) :
    C.Alike (List.map Param.strip) (params m) (params n) :=
  (isNext_alike _).bind_id fun _ => .ite (.pure rfl)
    (commaSeparated_alike (param_alike hmn) hmn)

theorem patternBinding_alike (name : String) :
    C.Alike id (patternBinding name) (patternBinding name) := by
  refine (expect_alike _ _).bind fun _ _ _ => (expect_alike _ _).bind fun t u h => ?_
  exact (expect_alike _ _).bind fun _ _ _ => .pure (by rw [C.text_eq h])

/-- An unknown pattern is shown by the token that was just taken. -/
theorem pattern_alike : C.Alike Pattern.strip pattern pattern := by
  refine fun t u => C.expect_bind (by decide) fun name name' h => ?_
  simp only [C.text_eq h]
  split
  · exact C.behind (Comparison.Alike.pure rfl)
  · exact C.behind ((patternBinding_alike _).bind_id fun _ => .pure rfl)
  · exact C.behind ((patternBinding_alike _).bind_id fun _ => .pure rfl)
  · exact C.behind ((patternBinding_alike _).bind_id fun _ => .pure rfl)
  · exact C.failAt _ h

/-! ### Expressions -/

section Expressions

variable {operand operand' inner inner' : Parser Expr}

/-- The operators are read one by one, and the tree grows to the left. -/
theorem binaryRest_alike (isOp : TokenKind → Bool) (h : C.Alike Expr.strip operand operand')
    (hmn : C.Rounds m n) {left left' : Expr} (hleft : left.strip = left'.strip) :
    C.Alike Expr.strip (binaryRest isOp operand m left) (binaryRest isOp operand' n left') := by
  intro t u htu
  -- from round to round, what was read so far stays alike
  refine C.bounded (I := fun left left' : Expr => left.strip = left'.strip) (fun _ => rfl)
    (fun _ => rfl) (fun m n hmn ih left left' hleft => ?_) hmn hleft htu
  refine (accept?_alike _).bind_option (.pure hleft) fun op op' hop => ?_
  refine h.bind fun right right' hright => ih _ _ ?_
  simp [hleft, hright, C.text_eq hop]

theorem binaryLevel_alike (isOp : TokenKind → Bool) (hmn : C.Rounds m n)
    (h : C.Alike Expr.strip operand operand') :
    C.Alike Expr.strip (binaryLevel isOp m operand) (binaryLevel isOp n operand') :=
  h.bind fun _ _ hleft => binaryRest_alike isOp h hmn hleft

/-- Signs in front of each other take a round each. -/
theorem unaryLevel_alike (h : C.Alike Expr.strip operand operand') (hmn : C.Rounds m n) :
    C.Alike Expr.strip (unaryLevel operand m) (unaryLevel operand' n) := by
  refine .bounded rfl rfl (fun m n hmn ih => ?_) hmn
  refine (accept?_alike _).bind_option h fun op op' hop => ?_
  refine ih.bind fun e e' he => (spanOf_alike _ _).bind fun _ _ _ => .pure ?_
  simp [he, C.text_eq hop]

theorem arguments_alike (h : C.Alike Expr.strip inner inner') (hmn : C.Rounds m n) :
    C.Alike (List.map Expr.strip) (arguments inner m) (arguments inner' n) :=
  (isNext_alike _).bind_id fun _ => .ite (.pure rfl) (commaSeparated_alike h hmn)

/-- Calls, fields and questions grow around what was read before. -/
theorem suffixes_alike (h : C.Alike Expr.strip inner inner') (hmn : C.Rounds m n)
    {base base' : Expr} (hbase : base.strip = base'.strip) :
    C.Alike Expr.strip (suffixes inner m base) (suffixes inner' n base') := by
  intro t u htu
  refine C.bounded (I := fun base base' : Expr => base.strip = base'.strip) (fun _ => rfl)
    (fun _ => rfl) (fun m n hmn ih base base' hbase => ?_) hmn hbase htu
  refine (accept?_alike _).bind_option ?_ fun opening opening' _ => ?_
  · refine (accept_alike _).bind_id fun _ => .ite ?_ ?_
    · refine (expect_alike _ _).bind fun t u htu => (spanOf_alike _ _).bind fun _ _ _ => ih _ _ ?_
      simp [hbase, C.text_eq htu]
    · refine (accept?_alike _).bind_option (.pure hbase) fun mark mark' _ => ?_
      exact (spanOf_alike _ _).bind fun _ _ _ => ih _ _ (by simp [hbase])
  · refine (arguments_alike h hmn).bind fun args args' hargs => ?_
    refine (expect_alike _ _).bind fun _ _ _ => (spanOf_alike _ _).bind fun _ _ _ => ?_
    refine (spanOf_alike _ _).bind fun _ _ _ => ih _ _ ?_
    simp [stripExprs_eq_map, hbase, hargs]

theorem moreElements_alike (h : C.Alike Expr.strip inner inner') (hmn : C.Rounds m n) :
    C.Alike (List.map Expr.strip) (moreElements inner m) (moreElements inner' n) := by
  refine .bounded rfl rfl (fun m n hmn ih => ?_) hmn
  refine (accept_alike _).bind_id fun _ => .ite ?_ (.pure rfl)
  refine (isNext_alike _).bind_id fun _ => .ite (.pure rfl) (h.bind fun e e' he => ?_)
  exact ih.bind fun es es' hes => .pure (by simp only [List.map_cons, he, hes])

theorem elements_alike (h : C.Alike Expr.strip inner inner') (hmn : C.Rounds m n) :
    C.Alike (List.map Expr.strip) (elements inner m) (elements inner' n) := by
  refine (isNext_alike _).bind_id fun _ => .ite (.pure rfl) (h.bind fun e e' he => ?_)
  exact (moreElements_alike h hmn).bind fun es es' hes =>
    .pure (by simp only [List.map_cons, he, hes])

theorem listLiteral_alike (h : C.Alike Expr.strip inner inner') (hmn : C.Rounds m n)
    (t u : Token) : C.Alike Expr.strip (listLiteral inner m t) (listLiteral inner' n u) := by
  refine (elements_alike h hmn).bind fun es es' hes => (expect_alike _ _).bind fun _ _ _ => ?_
  refine (spanOf_alike _ _).bind fun _ _ _ => (spanOf_alike _ _).bind fun _ _ _ => .pure ?_
  simp [stripExprs_eq_map, hes]

/-- The pattern and the body of an arm, one behind the other. -/
theorem matchArm_alike (h : C.Alike Expr.strip inner inner') :
    C.Alike Arm.strip (matchArm inner) (matchArm inner') := by
  refine pattern_alike.bind fun p p' hp => (expect_alike _ _).bind fun _ _ _ => ?_
  refine h.bind fun body body' hbody => (accept_alike _).bind_id fun _ => .pure ?_
  simp only [Arm.strip, hp, hbody]

theorem matchExpr_alike (h : C.Alike Expr.strip inner inner') (hmn : C.Rounds m n) (t u : Token) :
    C.Alike Expr.strip (matchExpr inner m t) (matchExpr inner' n u) := by
  refine h.bind fun e e' he => (expect_alike _ _).bind fun _ _ _ => ?_
  refine (manyUntil_alike (matchArm_alike h) _ hmn).bind fun arms arms' harms => ?_
  refine (expect_alike _ _).bind fun _ _ _ => .pure ?_
  simp [stripArms_eq_map, he, harms]

/-- A numeral has the same value, or stops both parsers. -/
theorem numeral_alike {α : Type} (r : Except NumeralFault α) :
    C.Alike id (numeral r) (numeral r) := by
  cases r
  · exact .stop _
  · exact .pure rfl

/-- The first token decides what is read, and its kind is the same. -/
theorem primary_alike (h : C.Alike Expr.strip inner inner') (hmn : C.Rounds m n) :
    C.Alike Expr.strip (primary inner m) (primary inner' n) := by
  refine .peek_bind fun next next' hnext => ?_
  simp only [C.kind_eq hnext, C.text_eq hnext]
  split
  case h_1 =>
    refine (advance_alike.bind fun t u htu => ?_) next next' hnext
    rw [C.text_eq htu]
    exact (numeral_alike _).bind_id fun _ => (spanOf_alike t u).bind fun _ _ _ => .pure rfl
  case h_2 =>
    refine (advance_alike.bind fun t u htu => ?_) next next' hnext
    rw [C.text_eq htu]
    exact (numeral_alike _).bind_id fun _ => (spanOf_alike t u).bind fun _ _ _ => .pure rfl
  case h_3 =>
    refine (advance_alike.bind fun t u htu => ?_) next next' hnext
    refine (spanOf_alike t u).bind fun _ _ _ => .pure ?_
    simp [C.text_eq htu]
  case h_4 =>
    refine (advance_alike.bind fun t u _ => ?_) next next' hnext
    exact (spanOf_alike t u).bind fun _ _ _ => .pure rfl
  case h_5 =>
    refine (advance_alike.bind fun t u _ => ?_) next next' hnext
    exact (spanOf_alike t u).bind fun _ _ _ => .pure rfl
  case h_6 => exact (advance_alike.bind fun t u _ => matchExpr_alike h hmn t u) next next' hnext
  case h_7 => exact (advance_alike.bind fun t u _ => listLiteral_alike h hmn t u) next next' hnext
  case h_8 =>
    refine (advance_alike.bind fun t u htu => ?_) next next' hnext
    refine (spanOf_alike t u).bind fun _ _ _ => .pure ?_
    simp [C.text_eq htu]
  case h_9 =>
    refine (advance_alike.bind fun _ _ _ => h.bind fun e e' he => ?_) next next' hnext
    exact (expect_alike _ _).bind fun _ _ _ => .pure he
  case h_10 => exact failHere_alike _ next next' hnext

theorem postfixExpr_alike (h : C.Alike Expr.strip inner inner') (hmn : C.Rounds m n) :
    C.Alike Expr.strip (postfixExpr inner m) (postfixExpr inner' n) :=
  (primary_alike h hmn).bind fun _ _ hbase => suffixes_alike h hmn hbase

/-- The levels of binding, from the loosest one, each with the next as its operand. -/
theorem expr_alike (hmn : C.Rounds m n) : C.Alike Expr.strip (expr m) (expr n) := by
  refine .bounded rfl rfl (fun m n hmn ih => ?_) hmn
  refine binaryLevel_alike _ hmn (binaryLevel_alike _ hmn (binaryLevel_alike _ hmn ?_))
  exact unaryLevel_alike (postfixExpr_alike ih hmn) hmn

end Expressions

/-! ### Statements -/

section Statements

variable {inner inner' : Parser Expr} {stmt stmt' : Parser Stmt} {body body' : Parser (List Stmt)}

/-- Statements between braces. -/
theorem block_alike (h : C.Alike Stmt.strip stmt stmt') (hmn : C.Rounds m n) :
    C.Alike (List.map Stmt.strip) (block stmt m) (block stmt' n) := by
  refine (expect_alike _ _).bind fun _ _ _ => ?_
  refine (manyUntil_alike h _ hmn).bind fun ss ss' hss => ?_
  exact (expect_alike _ _).bind fun _ _ _ => .pure hss

theorem letStmt_alike (h : C.Alike Expr.strip inner inner') (hmn : C.Rounds m n) :
    C.Alike Stmt.strip (letStmt inner m) (letStmt inner' n) := by
  refine (expect_alike _ _).bind fun _ _ _ => (accept_alike _).bind_id fun isMutable => ?_
  refine (expect_alike _ _).bind fun t u htu => (typeAfter?_alike _ hmn).bind fun a b hab => ?_
  refine (expect_alike _ _).bind fun _ _ _ => h.bind fun e e' he => ?_
  refine (spanOf_alike _ _).bind fun _ _ _ => .pure ?_
  simp [C.text_eq htu, he, hab]

theorem assignStmt_alike (h : C.Alike Expr.strip inner inner') :
    C.Alike Stmt.strip (assignStmt inner) (assignStmt inner') := by
  refine (expect_alike _ _).bind fun t u htu => (expect_alike _ _).bind fun _ _ _ => ?_
  refine h.bind fun e e' he => (spanOf_alike _ _).bind fun _ _ _ => .pure ?_
  simp [C.text_eq htu, he]

theorem returnStmt_alike (h : C.Alike Expr.strip inner inner') :
    C.Alike Stmt.strip (returnStmt inner) (returnStmt inner') := by
  refine (expect_alike _ _).bind fun _ _ _ => (spanOf_alike _ _).bind fun _ _ _ => ?_
  refine (isNext_alike _).bind_id fun _ => .ite (.pure rfl) ?_
  exact h.bind fun e e' he => .pure (by simp [he])

theorem whileStmt_alike (h : C.Alike Expr.strip inner inner')
    (hbody : C.Alike (List.map Stmt.strip) body body') :
    C.Alike Stmt.strip (whileStmt inner body) (whileStmt inner' body') := by
  refine (expect_alike _ _).bind fun _ _ _ => h.bind fun e e' he => ?_
  refine hbody.bind fun ss ss' hss => (spanOf_alike _ _).bind fun _ _ _ => .pure ?_
  simp [stripStmts_eq_map, he, hss]

theorem forStmt_alike (h : C.Alike Expr.strip inner inner')
    (hbody : C.Alike (List.map Stmt.strip) body body') :
    C.Alike Stmt.strip (forStmt inner body) (forStmt inner' body') := by
  refine (expect_alike _ _).bind fun _ _ _ => (expect_alike _ _).bind fun t u htu => ?_
  refine (expect_alike _ _).bind fun _ _ _ => h.bind fun e e' he => ?_
  refine hbody.bind fun ss ss' hss => (spanOf_alike _ _).bind fun _ _ _ => .pure ?_
  simp [stripStmts_eq_map, C.text_eq htu, he, hss]

theorem loopStmt_alike (hbody : C.Alike (List.map Stmt.strip) body body') :
    C.Alike Stmt.strip (loopStmt body) (loopStmt body') := by
  refine (expect_alike _ _).bind fun _ _ _ => hbody.bind fun ss ss' hss => ?_
  refine (spanOf_alike _ _).bind fun _ _ _ => .pure ?_
  simp [stripStmts_eq_map, hss]

/-- A block behind `else`, or none. -/
theorem elseBlock?_alike (hbody : C.Alike (List.map Stmt.strip) body body') :
    C.Alike (Option.map (List.map Stmt.strip)) (elseBlock? body) (elseBlock? body') := by
  refine (accept_alike _).bind_id fun _ => .ite ?_ (.pure rfl)
  exact hbody.map fun _ _ h => congrArg some h

theorem ifStmt_alike (h : C.Alike Expr.strip inner inner')
    (hbody : C.Alike (List.map Stmt.strip) body body') :
    C.Alike Stmt.strip (ifStmt inner body) (ifStmt inner' body') := by
  refine (expect_alike _ _).bind fun _ _ _ => h.bind fun e e' he => ?_
  refine hbody.bind fun ss ss' hss => (elseBlock?_alike hbody).bind_option ?_ fun es es' hes => ?_
  · refine (spanOf_alike _ _).bind fun _ _ _ => .pure ?_
    simp [stripStmts_eq_map, he, hss]
  · refine (spanOf_alike _ _).bind fun _ _ _ => .pure ?_
    simp [stripStmts_eq_map, he, hss, hes]

theorem exprStmt_alike (h : C.Alike Expr.strip inner inner') :
    C.Alike Stmt.strip (exprStmt inner) (exprStmt inner') :=
  h.bind fun _ _ he => .pure (by simp [he])

end Statements

def namedStmt (expr : Parser Expr) : Parser Stmt := do
  if ← isSecond .assign then assignStmt expr else exprStmt expr

/-- Statements that start with names are alike.  Reading looks at two tokens there. -/
def Parser.Comparison.Names (C : Comparison) : Prop :=
  ∀ {m n : Nat}, C.Rounds m n → ∀ {t u : Token}, C.shown t = C.shown u → t.kind = .ident →
    C.At Stmt.strip t u (namedStmt (expr m)) (namedStmt (expr n))

/-- The first token tells which statement is read; only a name needs the second one. -/
theorem statement_alike (hnames : C.Names) (hmn : C.Rounds m n) :
    C.Alike Stmt.strip (statement m) (statement n) := by
  refine .bounded rfl rfl (fun m n hmn ih => .peek_bind fun t u htu => ?_) hmn
  have hexpr := expr_alike (C.rounds_succ hmn)
  have hblock := block_alike ih hmn
  rw [C.kind_eq htu]
  split
  case h_1 => exact letStmt_alike hexpr hmn t u htu
  case h_2 => exact returnStmt_alike hexpr t u htu
  case h_3 => exact ifStmt_alike hexpr hblock t u htu
  case h_4 => exact whileStmt_alike hexpr hblock t u htu
  case h_5 => exact forStmt_alike hexpr hblock t u htu
  case h_6 => exact loopStmt_alike hblock t u htu
  case h_7 =>
    refine (advance_alike.bind fun t u _ => ?_) t u htu
    exact (spanOf_alike t u).bind fun _ _ _ => .pure rfl
  case h_8 =>
    refine (advance_alike.bind fun t u _ => ?_) t u htu
    exact (spanOf_alike t u).bind fun _ _ _ => .pure rfl
  case h_9 hkind => exact hnames (C.rounds_succ hmn) htu ((C.kind_eq htu).trans hkind)
  case h_10 => exact exprStmt_alike hexpr t u htu

theorem fnDecl_alike (hnames : C.Names) (hmn : C.Rounds m n) :
    C.Alike FnDecl.strip (fnDecl m) (fnDecl n) := by
  refine (expect_alike _ _).bind fun _ _ _ => (expect_alike _ _).bind fun t u htu => ?_
  refine (expect_alike _ _).bind fun _ _ _ => (params_alike hmn).bind fun ps qs hps => ?_
  refine (expect_alike _ _).bind fun _ _ _ => (typeAfter?_alike _ hmn).bind fun a b hab => ?_
  refine (block_alike (statement_alike hnames hmn) hmn).bind fun ss ss' hss => ?_
  refine (spanOf_alike _ _).bind fun _ _ _ => .pure ?_
  simp only [FnDecl.strip, stripStmts_eq_map, C.text_eq htu, hps, hab, hss]

def ParseError.strip (e : ParseError) : ParseError := ⟨e.fault, e.token.strip, 0⟩

def Item.strip : Item → Item
  | .importing i => .importing i.strip
  | .function f => .function f.strip
  | .stmt s => .stmt s.strip
  | .fault e => .fault e.strip

/-- What a program is made of: imports, functions and statements. -/
theorem item_alike (hnames : C.Names) (hmn : C.Rounds m n) :
    C.Alike Item.strip (item m) (item n) := by
  refine .peek_bind fun t u htu => ?_
  rw [C.kind_eq htu]
  split
  · exact ((importDecl_alike hmn).bind fun _ _ h => .pure (by simp only [Item.strip, h])) t u htu
  · refine ((fnDecl_alike hnames hmn).bind fun _ _ h => .pure ?_) t u htu
    simp only [Item.strip, h]
  · refine ((statement_alike hnames hmn).bind fun _ _ h => .pure ?_) t u htu
    simp only [Item.strip, h]

end Owl
