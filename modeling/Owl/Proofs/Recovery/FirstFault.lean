/-
The first fault depends on nothing behind the token that shows it.

Two lists of tokens that agree up to some place are read in the same way, as long as
reading does not come to where they differ.  The one look ahead beyond the next
token, by which an assignment is told from an expression, does no harm: behind a
name both of them go on to the next token.
-/
import Owl.Proofs.Comparison
import Owl.Proofs.Recovery.Faults

namespace Owl

/-- At most `n` tokens stand from the place of an outcome on: from the next token, or from the one
that shows a fault. -/
def Parsed.Within {α : Type} (n : Nat) : Parsed α → Prop
  | .ok _ rest => rest.length ≤ n
  | .fail e _ => e.left ≤ n
  | .stop _ => True

theorem Parsed.Within.mono {α : Type} {m n : Nat} {r : Parsed α} (h : r.Within m) (hmn : m ≤ n) :
    r.Within n := by
  cases r with
  | ok a rest => exact Nat.le_trans h hmn
  | fail e rest => exact Nat.le_trans h hmn
  | stop cause => trivial

namespace Parser

variable {α β γ δ : Type} {view : α → γ} {view' : β → δ} {next : Token} {x x' : List Token}

/-- Outcomes on two lists that go on with `x` and `x'`.  They have the same view, but for what is
left, unless the first one has come to `x` or the second one has reached its bound. -/
inductive Agreed (view : α → γ) (x x' : List Token) : Parsed α → Parsed α → Prop
  | ok {a b : α} {t : Token} {c : List Token} (value : view a = view b) :
      Agreed view x x' (.ok a (t :: (c ++ x))) (.ok b (t :: (c ++ x')))
  | fail {e e' : ParseError} {rest rest' : List Token} (fault : e'.fault = e.fault)
      (token : e'.token = e.token) (left : e'.left + x.length = e.left + x'.length) :
      Agreed view x x' (.fail e rest) (.fail e' rest')
  | late {r r' : Parsed α} (within : r.Within x.length) : Agreed view x x' r r'
  | bound {r : Parsed α} : Agreed view x x' r (.stop .bound)

/-- What was taken is the same; if it was all up to `x`, there is nothing to say. -/
theorem Agreed.taken (a : α) (c : List Token) :
    Agreed view x x' (.ok a (c ++ x)) (.ok a (c ++ x')) := by
  cases c with
  | nil => exact .late (Nat.le_refl _)
  | cons t c => exact .ok rfl

/-- Where the first token is `next`: a reading only goes forward, and on lists that agree at the
front the outcomes agree. -/
structure AgreesAt (view : α → γ) (next : Token) (p q : Parser α) : Prop where
  within : ∀ ⦃src : TokenSource⦄ ⦃ts : List Token⦄, ts.headD src.last = next →
    (p src ts).Within ts.length
  agreed : ∀ (file : String) (last last' : Token) (c x x' : List Token),
    Agreed view x x' (p ⟨file, last⟩ (next :: (c ++ x))) (q ⟨file, last'⟩ (next :: (c ++ x')))

/-- Where a token was just taken, from the front of lists that agree there: reading goes on and its
outcomes agree.  A fault may be shown by the token that was taken. -/
structure AgreesBehind (view : α → γ) (p q : Parser α) : Prop where
  within : ∀ (src : TokenSource) (rest : List Token), (p src rest).Within (rest.length + 1)
  agreed : ∀ (file : String) (last last' : Token) (c x x' : List Token),
    Agreed view x x' (p ⟨file, last⟩ (c ++ x)) (q ⟨file, last'⟩ (c ++ x'))

/-! ### Combinators -/

theorem AgreesAt.stop (cause : ParseStop) (q : Parser α) : AgreesAt view next (stop cause) q := by
  refine ⟨fun src ts _ => trivial, fun file last last' c x x' => ?_⟩
  exact .late trivial

/-- An outcome does not go back by reading on. -/
theorem within_bind {p : Parser α} {f g : α → Parser β} {src : TokenSource} {ts : List Token}
    {n : Nat} (hp : (p src ts).Within n) (hf : ∀ a t, AgreesAt view' t (f a) (g a)) :
    ((p >>= f) src ts).Within n := by
  show (Parser.bind p f src ts).Within n
  rw [Parser.bind]
  cases hrun : p src ts with
  | ok a rest =>
    rw [hrun] at hp
    exact ((hf a _).within rfl).mono hp
  | fail e rest => rwa [hrun] at hp
  | stop cause => trivial

theorem AgreesAt.bind {p q : Parser α} {f g : α → Parser β} (hp : AgreesAt view next p q)
    (hf : ∀ a b, view a = view b → ∀ t, AgreesAt view' t (f a) (g b)) :
    AgreesAt view' next (p >>= f) (q >>= g) := by
  have hsame : ∀ a t, AgreesAt view' t (f a) (g a) := fun a => hf a a rfl
  refine ⟨fun src ts hnext => within_bind (hp.within hnext) hsame, fun file last last' c x x' => ?_⟩
  have h := hp.agreed file last last' c x x'
  have hlate : (p ⟨file, last⟩ (next :: (c ++ x))).Within x.length →
      (Parser.bind p f ⟨file, last⟩ (next :: (c ++ x))).Within x.length :=
    fun hwithin => within_bind hwithin hsame
  show Agreed view' x x' (Parser.bind p f _ _) (Parser.bind q g _ _)
  rw [Parser.bind] at hlate ⊢
  rw [Parser.bind]
  generalize p ⟨file, last⟩ (next :: (c ++ x)) = first at h hlate ⊢
  generalize q ⟨file, last'⟩ (next :: (c ++ x')) = second at h ⊢
  cases h with
  | ok value => exact (hf _ _ value _).agreed ..
  | fail fault token left => exact .fail fault token left
  | late within => exact .late (hlate within)
  | bound => exact .bound

/-- Grammars with bounds agree if they do where neither bound is reached: reading with no rounds
stops, and where the second one has no rounds there is nothing to say. -/
theorem AgreesAt.bounded {ι : Type} {I : ι → ι → Prop} {p q : Nat → ι → Parser α}
    (hp : ∀ i, p 0 i = Parser.stop .bound) (hq : ∀ i, q 0 i = Parser.stop .bound)
    (step : ∀ m n, (∀ i j, I i j → ∀ t, AgreesAt view t (p m i) (q n j)) →
      ∀ i j, I i j → ∀ t, AgreesAt view t (p (m + 1) i) (q (n + 1) j))
    (m n : Nat) {i j : ι} (hij : I i j) (t : Token) : AgreesAt view t (p m i) (q n j) := by
  induction m generalizing n i j t with
  | zero =>
    rw [hp]
    exact .stop _ _
  | succ m ih =>
    have hstep := fun n => step m n fun i j hij t => ih n hij t
    cases n with
    | zero =>
      refine ⟨(hstep 0 i j hij t).within, fun file last last' c x x' => ?_⟩
      rw [hq]
      exact .bound
    | succ n => exact hstep n i j hij t

/-! ### Single tokens -/

theorem AgreesAt.peek_bind {f g : Token → Parser β} (h : AgreesAt view' next (f next) (g next)) :
    AgreesAt view' next (peek >>= f) (peek >>= g) := by
  refine ⟨fun src ts hnext => ?_, h.agreed⟩
  show (f (ts.headD src.last) src ts).Within ts.length
  rw [hnext]
  exact h.within hnext

theorem AgreesAt.advance : AgreesAt id next advance advance := by
  constructor
  · intro src ts _
    cases ts with
    | nil => trivial
    | cons t ts =>
      show (if t.kind == .eof then t :: ts else ts).length ≤ (t :: ts).length
      split
      · exact Nat.le_refl _
      · exact Nat.le_succ _
  · intro file last last' c x x'
    by_cases h : next.kind = .eof
    · simp only [Parser.advance, h, beq_self_eq_true, if_true]
      exact .ok rfl
    · rw [advance_cons h, advance_cons h]
      exact .taken next c

theorem AgreesAt.failHere (fault : GrammarFault) :
    AgreesAt view next (failHere fault) (failHere fault) := by
  refine ⟨fun src ts _ => Nat.le_refl _, fun file last last' c x x' => .fail rfl rfl ?_⟩
  simp only [List.length_cons, List.length_append]
  omega

theorem AgreesBehind.of_agrees {p q : Parser α} (h : ∀ t, AgreesAt view t p q) :
    AgreesBehind view p q := by
  refine ⟨fun src rest => ((h _).within rfl).mono (Nat.le_succ _), ?_⟩
  intro file last last' c x x'
  cases c with
  | nil => exact .late ((h _).within rfl)
  | cons t c => exact (h t).agreed file last last' c x x'

theorem AgreesBehind.failAt (t : Token) (fault : GrammarFault) :
    AgreesBehind view (failAt t fault : Parser α) (failAt t fault) := by
  refine ⟨fun src rest => Nat.le_refl _, fun file last last' c x x' => .fail rfl rfl ?_⟩
  simp only [List.length_append]
  omega

theorem AgreesAt.expect_bind {kind : TokenKind} {what : String} {f g : Token → Parser β}
    (hkind : kind ≠ .eof) (hf : ∀ t, AgreesBehind view' (f t) (g t)) :
    AgreesAt view' next (expect kind what >>= f) (expect kind what >>= g) := by
  have hnil : ∀ (b : Bool) (src : TokenSource), (Parser.bind
      (if b then Parser.advance else Parser.failHere (.missing what)) f src []).Within 0 := by
    intro b src
    cases b with
    | false => exact Nat.le_refl 0
    | true => trivial
  constructor
  · intro src ts _
    cases ts with
    | nil => exact hnil (src.last.kind == kind) src
    | cons t rest =>
      by_cases h : t.kind = kind
      · rw [bind_ok (expect_hit what h hkind)]
        exact (hf t).within src rest
      · rw [bind_fail (expect_miss what h)]
        exact Nat.le_refl _
  · intro file last last' c x x'
    by_cases h : next.kind = kind
    · rw [bind_ok (expect_hit what h hkind), bind_ok (expect_hit what h hkind)]
      exact (hf next).agreed file last last' c x x'
    · rw [bind_fail (expect_miss what h), bind_fail (expect_miss what h)]
      refine .fail rfl rfl ?_
      simp only [List.length_append]
      omega

/-- Parsers are compared on lists that agree at the front, with any bounds. -/
def frontwise : Comparison where
  shown := id
  Rounds _ _ := True
  At view t _ := AgreesAt view t
  Behind := AgreesBehind
  strip_eq h := congrArg Token.strip h
  rounds_succ _ := trivial
  pure h _ _ := ⟨fun _ _ _ => Nat.le_refl _, fun _ _ _ _ _ _ => .ok h⟩
  bind hp hf := hp.bind fun a b h t => hf a b h t t rfl
  stop cause _ _ := .stop cause _
  bounded hp hq step m n _ _ _ hij t _ _ := by
    refine .bounded hp hq (fun m n ih i j hij t => ?_) m n hij t
    exact step m n trivial (fun i j hij t _ _ => ih i j hij t) i j hij t t rfl
  peek_bind htu h := by
    obtain rfl := htu
    exact h.peek_bind
  advance _ := .advance
  failHere fault _ _ _ := .failHere fault
  spanOf _ _ _ _ := ⟨fun _ _ _ => Nat.le_refl _, fun _ _ _ _ _ _ => .ok rfl⟩
  expect_bind hkind hf _ _ _ := .expect_bind hkind fun t => hf t t rfl
  behind h := .of_agrees fun t => h t t rfl
  failAt fault htu := by
    obtain rfl := htu
    exact .failAt _ fault

theorem frontwise_rounds (m n : Nat) : frontwise.Rounds m n := trivial

/-! ### Behind a name -/

/-- Reading that starts with the token `t` comes to the token behind it, and shows no fault at
`t`. -/
def Passes (t : Token) (p : Parser α) : Prop :=
  ∀ (src : TokenSource) (ts : List Token), (p src (t :: ts)).Within ts.length

theorem Passes.bind {p : Parser α} {f : α → Parser β} {v : β → δ} (hp : Passes next p)
    (hf : ∀ a, frontwise.Alike v (f a) (f a)) : Passes next (p >>= f) := by
  have hsame : ∀ a t, AgreesAt v t (f a) (f a) := fun a t => hf a t t rfl
  exact fun src ts => within_bind (hp src ts) hsame

/-- Where both ways to go on pass over the next token, the second one may be looked at: if the
lists differ there, then reading comes to where they differ. -/
theorem AgreesAt.isSecond_bind {kind : TokenKind} {f g : Bool → Parser β}
    (hf : ∀ b, AgreesAt view' next (f b) (g b)) (hpasses : ∀ b, Passes next (f b)) :
    AgreesAt view' next (isSecond kind >>= f) (isSecond kind >>= g) := by
  refine ⟨fun src ts hnext => (hf _).within hnext, fun file last last' c x x' => ?_⟩
  cases c with
  | nil => exact .late (hpasses _ ⟨file, last⟩ x)
  | cons second c => exact (hf _).agreed file last last' (second :: c) x x'

theorem expect_passes {kind : TokenKind} (h : next.kind = kind) (hkind : kind ≠ .eof)
    (what : String) : Passes next (expect kind what) := by
  intro src ts
  rw [expect_hit what h hkind]
  exact Nat.le_refl _

end Parser

open Owl.Parser

theorem primary_passes {t : Token} (ht : t.kind = .ident) (inner : Parser Expr) (rounds : Nat) :
    Passes t (primary inner rounds) := by
  intro src ts
  have hrun : primary inner rounds src (t :: ts) =
      .ok (.name t.text (some (t.span src.file))) ts := by
    have hpeek : peek src (t :: ts) = .ok t (t :: ts) := rfl
    rw [primary, bind_ok hpeek, ht]
    exact bind_ok (advance_cons (by rw [ht]; decide)) _
  rw [hrun]
  exact Nat.le_refl _

theorem unaryLevel_passes {t : Token} (ht : t.kind = .ident) {operand : Parser Expr}
    (h : Passes t operand) (rounds : Nat) : Passes t (unaryLevel operand rounds) := by
  intro src ts
  cases rounds with
  | zero => trivial
  | succ rounds =>
    rw [unaryLevel, bind_ok (accept?_miss (by simp [ht]))]
    exact h src ts

theorem binaryLevel_passes {t : Token} {isOp : TokenKind → Bool} {operand : Parser Expr}
    (h : Passes t operand) (hoperand : frontwise.Alike Expr.strip operand operand) (rounds : Nat) :
    Passes t (binaryLevel isOp rounds operand) :=
  h.bind fun _ => binaryRest_alike isOp hoperand (frontwise_rounds _ _) rfl

theorem expr_passes {t : Token} (ht : t.kind = .ident) (rounds : Nat) : Passes t (expr rounds) := by
  cases rounds with
  | zero => exact fun _ _ => trivial
  | succ rounds =>
    have hrounds := frontwise_rounds rounds rounds
    have hinner := expr_alike hrounds
    have hunary := unaryLevel_alike (postfixExpr_alike hinner hrounds) hrounds
    have hpostfix : Passes t (postfixExpr (expr rounds) rounds) :=
      (primary_passes ht _ _).bind fun _ => suffixes_alike hinner hrounds rfl
    have hstart := unaryLevel_passes ht hpostfix rounds
    refine binaryLevel_passes (binaryLevel_passes (binaryLevel_passes hstart hunary _) ?_ _) ?_ _
    · exact binaryLevel_alike _ hrounds hunary
    · exact binaryLevel_alike _ hrounds (binaryLevel_alike _ hrounds hunary)

theorem assignStmt_passes {t : Token} (ht : t.kind = .ident) {inner : Parser Expr}
    (h : frontwise.Alike Expr.strip inner inner) : Passes t (assignStmt inner) := by
  refine (expect_passes ht (by decide) _).bind (v := Stmt.strip) fun name => ?_
  refine (expect_alike _ _).bind fun _ _ _ => h.bind fun value value' hvalue => ?_
  exact (spanOf_alike _ _).bind fun _ _ _ => .pure (by simp only [Stmt.strip, hvalue])

/-- Both an assignment and an expression pass over the name. -/
theorem frontwise_names : frontwise.Names := by
  intro m n hmn t u htu ht
  have hexpr := expr_alike hmn
  refine AgreesAt.isSecond_bind (fun b => ?_) fun b => ?_
  · exact Comparison.Alike.ite (assignStmt_alike hexpr) (exprStmt_alike hexpr) t u htu
  · split
    · exact assignStmt_passes ht (expr_alike (frontwise_rounds m m))
    · exact (expr_passes ht m).bind (v := Stmt.strip) fun _ => .pure rfl

/-- The grammars are alike, with any two bounds on the rounds. -/
theorem item_agrees (bound bound' : Nat) (t : Token) :
    AgreesAt Item.strip t (item bound) (item bound') :=
  item_alike frontwise_names (frontwise_rounds bound bound') t t rfl

/-! ### The first fault -/

/-- The same fault in two readings of lists that go on with `x` and `x'`. -/
structure ParseError.Same (x x' : List Token) (e e' : ParseError) : Prop where
  fault : e'.fault = e.fault
  token : e'.token = e.token
  left : e'.left + x.length = e.left + x'.length

namespace Reading

section Step

variable {src : TokenSource} {bound : Nat} {t : Token} {ts rest : List Token} (rounds : Nat)

theorem errors_itemsFrom_ok {i : Item} (ht : t.kind ≠ .eof)
    (hitem : item bound src (t :: ts) = .ok i rest) :
    (itemsFrom src bound (rounds + 1) (t :: ts)).errors =
      (itemsFrom src bound rounds rest).errors := by
  rw [itemsFrom, List.headD_cons, if_neg (by simpa using ht), hitem]
  exact recorded_item (item_not_fault bound hitem) false _

/-- Whatever recovery does, the fault from which it starts is recorded first. -/
theorem errors_itemsFrom_fail {e : ParseError} (ht : t.kind ≠ .eof)
    (hitem : item bound src (t :: ts) = .fail e rest) :
    (itemsFrom src bound (rounds + 1) (t :: ts)).errors.head? = some e := by
  rw [itemsFrom, List.headD_cons, if_neg (by simpa using ht), hitem]
  cases hrun : recover src rest with
  | ok _ rest => simp [hrun, errors, recorded]
  | fail _ rest => simp [hrun, errors, recorded]
  | stop cause => simp [hrun, errors, recorded]

theorem errors_itemsFrom_stop {cause : ParseStop} (ht : t.kind ≠ .eof)
    (hitem : item bound src (t :: ts) = .stop cause) :
    (itemsFrom src bound (rounds + 1) (t :: ts)).errors = [] := by
  rw [itemsFrom, List.headD_cons, if_neg (by simpa using ht), hitem]
  rfl

end Step

/-- Reading on from a place in front of where the lists differ: a first fault that is shown in
front of it as well is the first fault of the other reading. -/
theorem itemsFrom_agrees (file : String) (last last' : Token) {bound bound' rounds rounds' : Nat}
    {x x' c : List Token} {t : Token} (henough : Enough bound rounds (t :: (c ++ x)))
    (henough' : Enough bound' rounds' (t :: (c ++ x'))) {e : ParseError}
    (he : (itemsFrom ⟨file, last⟩ bound rounds (t :: (c ++ x))).errors.head? = some e)
    (hleft : x.length < e.left) :
    ∃ e', (itemsFrom ⟨file, last'⟩ bound' rounds' (t :: (c ++ x'))).errors.head? = some e' ∧
      e.Same x x' e' := by
  induction rounds generalizing rounds' t c with
  | zero => exact absurd henough.rounds (by omega)
  | succ rounds ih =>
    have hrounds' := henough'.rounds
    obtain ⟨rounds', rfl⟩ : ∃ m, rounds' = m + 1 := ⟨rounds' - 1, by omega⟩
    by_cases ht : t.kind = .eof
    · rw [itemsFrom_eof _ _ _ ht] at he
      cases he
    have hagreed := (item_agrees bound bound' t).agreed file last last' c x x'
    have hended := henough.item_ended ⟨file, last⟩
    have hended' := henough'.item_ended ⟨file, last'⟩
    generalize hitem : item bound ⟨file, last⟩ (t :: (c ++ x)) = first at hagreed hended
    generalize hitem' : item bound' ⟨file, last'⟩ (t :: (c ++ x')) = second at hagreed hended'
    cases hagreed with
    | ok =>
      rw [errors_itemsFrom_ok _ ht hitem] at he
      rw [errors_itemsFrom_ok _ ht hitem']
      exact ih (henough.next hended.took) (henough'.next hended'.took) he
    | fail fault token left =>
      rw [errors_itemsFrom_fail _ ht hitem] at he
      rw [errors_itemsFrom_fail _ ht hitem']
      cases he
      exact ⟨_, rfl, fault, token, left⟩
    | late within =>
      -- The first reading has come to where the lists differ, and the fault is not in front of it.
      exfalso
      cases first with
      | ok i rest =>
        rw [errors_itemsFrom_ok _ ht hitem] at he
        have hsound := itemsFrom_sound ⟨file, last⟩ (henough.next hended.took)
        have hmem := (recorded_sublist false _).subset (List.mem_of_mem_head? he)
        have hle := (hsound.shown e hmem).left_le
        exact Nat.not_le_of_lt hleft (Nat.le_trans hle within)
      | fail e rest =>
        rw [errors_itemsFrom_fail _ ht hitem] at he
        cases he
        exact Nat.not_le_of_lt hleft within
      | stop cause =>
        rw [errors_itemsFrom_stop _ ht hitem] at he
        cases he
    | bound =>
      -- The second reading has enough rounds.
      cases hended' with
      | stop h =>
        obtain ⟨_, _, _, hcause, -⟩ := h henough'.hasEnd (Nat.lt_succ_self _)
        cases hcause

theorem result_eq_fault {r : Reading} {e : ParseError} :
    r.result = .error (.fault e) ↔ r.stop? = none ∧ r.errors.head? = some e := by
  rw [result]
  cases r.stop? with
  | some cause => simp
  | none =>
    cases r.errors with
    | nil => simp
    | cons e' later => simp

theorem errors_of_result_eq_ok {r : Reading} {program : Program} (h : r.result = .ok program) :
    r.errors = [] := by
  rw [result] at h
  cases hstop : r.stop? with
  | some cause => simp [hstop] at h
  | none =>
    cases herrors : r.errors with
    | nil => rfl
    | cons e' later => simp [hstop, herrors] at h

/-- The first fault of a list is the first fault of each list that starts with the same tokens, up
to the one that shows it. -/
theorem ofTokens_agrees (file : String) {ts ts' : List Token} {last last' : Token}
    (hts : ts.getLast? = some last) (hlast : last.kind = .eof)
    (hts' : ts'.getLast? = some last') (hlast' : last'.kind = .eof) {e : ParseError}
    (he : (ofTokens file ts).errors.head? = some e)
    (hagree : ts'.take (e.index ts + 1) = ts.take (e.index ts + 1)) :
    ∃ e', (ofTokens file ts').errors.head? = some e' ∧ e'.fault = e.fault ∧ e'.token = e.token ∧
      e'.index ts' = e.index ts := by
  have hmem := (recorded_sublist false _).subset (List.mem_of_mem_head? he)
  obtain ⟨front, x, hfront, hleft⟩ := (ofTokens_sound file hts hlast).shown e hmem
  have hindex : e.index ts = front.length := by
    rw [ParseError.index, hfront, List.length_append, List.length_cons]
    omega
  -- Both lists start with the tokens up to the one that shows the fault.
  obtain ⟨t, c, hc⟩ := List.exists_cons_of_ne_nil (List.concat_ne_nil e.token front)
  have hcx : ts = t :: (c ++ x) := by
    rw [hfront, ← List.cons_append, ← hc]
    simp
  obtain ⟨x', hcx'⟩ : ∃ x', ts' = t :: (c ++ x') := by
    refine ⟨ts'.drop (front.length + 1), ?_⟩
    have htake : ts.take (front.length + 1) = t :: c := by
      rw [hfront, ← hc]
      simp [List.take_append]
    rw [hindex, htake] at hagree
    rw [← List.cons_append, ← hagree, List.take_append_drop]
  have henough := enough_ofTokens hts hlast
  have henough' := enough_ofTokens hts' hlast'
  rw [ofTokens_eq file hts] at he
  rw [ofTokens_eq file hts']
  rw [hcx] at he henough
  rw [hcx'] at henough' ⊢
  obtain ⟨e', he', hsame⟩ := itemsFrom_agrees file last last' henough henough' he (by omega)
  refine ⟨e', he', hsame.fault, hsame.token, ?_⟩
  have hleft' := hsame.left
  rw [ParseError.index, ParseError.index, hcx]
  simp only [List.length_cons, List.length_append]
  omega

end Reading

/-- A fault is shown as early as can be: whatever follows the token that shows the first one, the
reading shows the same fault there, and no list that starts like this is a program. -/
theorem parse_fault_early (file : String) {ts ts' : List Token} {last last' : Token}
    (hts : ts.getLast? = some last) (hlast : last.kind = .eof)
    (hts' : ts'.getLast? = some last') (hlast' : last'.kind = .eof) {e : ParseError}
    (he : parse file ts = .error (.fault e))
    (hagree : ts'.take (e.index ts + 1) = ts.take (e.index ts + 1)) :
    ((∀ t ∈ ts', ∀ cause, ¬ t.Unreadable cause) →
      ∃ e', parse file ts' = .error (.fault e') ∧ e'.fault = e.fault ∧ e'.token = e.token ∧
        e'.index ts' = e.index ts) ∧
    ∀ program, parse file ts' ≠ .ok program := by
  have hfirst := (Reading.result_eq_fault.mp he).2
  obtain ⟨e', he', hsame⟩ := Reading.ofTokens_agrees file hts hlast hts' hlast' hfirst hagree
  constructor
  · intro hreadable
    have hstop : (Reading.ofTokens file ts').stop? = none := by
      cases hstop : (Reading.ofTokens file ts').stop? with
      | none => rfl
      | some cause =>
        obtain ⟨t, ht, hunreadable⟩ := (Reading.ofTokens_sound file hts' hlast').stops cause hstop
        exact absurd hunreadable (hreadable t ht cause)
    exact ⟨e', Reading.result_eq_fault.mpr ⟨hstop, he'⟩, hsame⟩
  · intro program hprogram
    rw [Reading.errors_of_result_eq_ok hprogram] at he'
    cases he'

/-- Behind a name that no pattern has, the arm may go on as it should. -/
theorem parse_fault_early_unknown_pattern :
    let word (kind : TokenKind) (text : String) : Token := ⟨kind, text, .start⟩
    let front := [word .kwMatch "match", word .ident "x", word .lbrace "\x7b", word .ident "All"]
    let ts := front ++ [word .eof ""]
    let ts' := front ++ [word .fatArrow "=>", word .int "1", word .rbrace "\x7d", word .eof ""]
    parse "" ts = .error (.fault ⟨.unknownPattern "All", word .ident "All", 2⟩) ∧
      (∃ e', parse "" ts' = .error (.fault e') ∧ e'.fault = .unknownPattern "All" ∧
        e'.token = word .ident "All" ∧ e'.index ts' = 3) ∧
      ∀ program, parse "" ts' ≠ .ok program := by
  intro word front ts ts'
  have hparse : parse "" ts = .error (.fault ⟨.unknownPattern "All", word .ident "All", 2⟩) := by
    rfl
  have hnumerals : ∀ t ∈ ts', t.kind ≠ .float ∧ (t.kind = .int → t.text = "1") := by decide
  have hone : (Numeral.readInt "1").isOk := by decide +kernel
  have hreadable : ∀ t ∈ ts', ∀ cause, ¬ t.Unreadable cause := by
    rintro t ht cause ⟨fault, -, ⟨hkind, hread⟩ | ⟨hkind, -⟩⟩
    · rw [(hnumerals t ht).2 hkind] at hread
      rw [hread] at hone
      cases hone
    · exact (hnumerals t ht).1 hkind
  have hts : ts.getLast? = some (word .eof "") := rfl
  have hts' : ts'.getLast? = some (word .eof "") := rfl
  have hearly := parse_fault_early "" hts rfl hts' rfl hparse rfl
  exact ⟨hparse, hearly.1 hreadable, hearly.2⟩

end Owl
