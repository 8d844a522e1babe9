/-
Reading tokens does not depend on where they stand.

Two token lists that differ only in their places are read alike: both into programs that
strip to the same program, or both with the same fault at the same word, or both
with the same stop.

* `Parser.placeless` — parsers are compared by their outcomes on tokens that differ only
  in their places.
-/
import Owl.Proofs.Comparison

namespace Owl

variable {ts us : List Token} {src src' : TokenSource}

namespace Parser

variable {α β γ δ : Type} {view : α → γ} {view' : β → δ} {t u : Token}

/-- Outcomes that differ only in places: the values have the same view, and the tokens that are
left differ only in their places. -/
inductive Outcome (view : α → γ) : Parsed α → Parsed α → Prop
  | ok {a b : α} {ts us : List Token} (value : view a = view b)
      (rest : ts.map Token.strip = us.map Token.strip) : Outcome view (.ok a ts) (.ok b us)
  | fail {e f : ParseError} {ts us : List Token} (error : e.strip = f.strip)
      (rest : ts.map Token.strip = us.map Token.strip) : Outcome view (.fail e ts) (.fail f us)
  | stop {cause : ParseStop} : Outcome view (.stop cause) (.stop cause)

/-- Outcomes are alike on tokens that differ only in their places and start with `t` and `u`. -/
def AlikeAt (view : α → γ) (t u : Token) (p q : Parser α) : Prop :=
  ∀ ⦃src src' : TokenSource⦄, src.last.strip = src'.last.strip →
    ∀ ⦃ts us : List Token⦄, ts.map Token.strip = us.map Token.strip →
      ts.headD src.last = t → us.headD src'.last = u → Outcome view (p src ts) (q src' us)

/-- The next tokens, which may be the end marks, differ only in their places. -/
theorem strip_headD (hsrc : src.last.strip = src'.last.strip)
    (hts : ts.map Token.strip = us.map Token.strip) :
    (ts.headD src.last).strip = (us.headD src'.last).strip := by
  cases ts <;> cases us <;> simp_all

/-- What follows may only use what the view keeps of the first value. -/
theorem AlikeAt.bind {p q : Parser α} {f g : α → Parser β} (hp : AlikeAt view t u p q)
    (hf : ∀ a b, view a = view b → ∀ t u, t.strip = u.strip → AlikeAt view' t u (f a) (g b)) :
    AlikeAt view' t u (p >>= f) (q >>= g) := by
  intro src src' hsrc ts us hts ht hu
  show Outcome view' (Parser.bind p f src ts) (Parser.bind q g src' us)
  have h := hp hsrc hts ht hu
  rw [Parser.bind, Parser.bind]
  generalize p src ts = first at h ⊢
  generalize q src' us = second at h ⊢
  cases h with
  | ok value rest => exact hf _ _ value _ _ (strip_headD hsrc rest) hsrc rest rfl rfl
  | fail error rest => exact .fail error rest
  | stop => exact .stop

theorem AlikeAt.advance : AlikeAt Token.strip t u advance advance := by
  intro src src' _ ts us hts _ _
  cases ts with
  | nil =>
    obtain rfl := List.map_eq_nil_iff.mp hts.symm
    exact .stop
  | cons t ts =>
    obtain ⟨u, us, rfl, hword, hrest⟩ := List.map_eq_cons_iff.mp hts.symm
    refine .ok hword.symm ?_
    rw [Token.kind_eq hword]
    split
    · exact hts
    · exact hrest.symm

theorem AlikeAt.peek_bind {f g : Token → Parser β} (h : AlikeAt view' t u (f t) (g u)) :
    AlikeAt view' t u (peek >>= f) (peek >>= g) := by
  intro src src' hsrc ts us hts ht hu
  subst ht hu
  exact h hsrc hts rfl rfl

/-- The faults are at tokens that differ only in their places. -/
theorem AlikeAt.failHere (fault : GrammarFault) :
    AlikeAt view t u (failHere fault) (failHere fault) := by
  intro src src' hsrc ts us hts _ _
  refine .fail ?_ hts
  rw [ParseError.strip, ParseError.strip, strip_headD hsrc hts]

theorem AlikeAt.expect (kind : TokenKind) (what : String) (htu : t.strip = u.strip) :
    AlikeAt Token.strip t u (expect kind what) (expect kind what) := by
  show AlikeAt Token.strip t u
    (peek >>= fun t => if t.kind == kind then Parser.advance else Parser.failHere (.missing what))
    (peek >>= fun t => if t.kind == kind then Parser.advance else Parser.failHere (.missing what))
  refine .peek_bind ?_
  rw [Token.kind_eq htu]
  cases u.kind == kind with
  | true => exact .advance
  | false => exact .failHere _

/-- Parsers are compared on tokens that differ only in their places. -/
def placeless : Comparison where
  shown := Token.strip
  Rounds m n := m = n
  At := AlikeAt
  Behind view p q := ∀ t u, t.strip = u.strip → AlikeAt view t u p q
  strip_eq := id
  rounds_succ h := by rw [h]
  pure h _ _ _ _ _ _ _ hts _ _ := .ok h hts
  bind := .bind
  stop cause _ _ _ _ _ _ _ _ _ _ := .stop
  bounded {ι α γ view I p q} hp hq step m n h i j hij t u htu := by
    subst h
    induction m generalizing i j t u with
    | zero =>
      rw [hp, hq]
      exact fun _ _ _ _ _ _ _ _ => .stop
    | succ m ih => exact step m m rfl ih i j hij t u htu
  peek_bind _ h := h.peek_bind
  advance _ := .advance
  failHere fault _ _ _ := .failHere fault
  spanOf _ _ _ _ _ _ _ _ _ hts _ _ := .ok rfl hts
  expect_bind _ hf _ _ htu := (AlikeAt.expect _ _ htu).bind hf
  behind h := h
  failAt fault htu _ _ _ _ _ _ _ _ hts _ _ :=
    .fail (by rw [ParseError.strip, ParseError.strip, htu]) hts

/-- Which statement starts with a name is told by the kind of the second token. -/
theorem placeless_names : placeless.Names := by
  intro m n hmn t u htu ht
  obtain rfl : m = n := hmn
  have hsecond : placeless.At id t u (isSecond .assign) (isSecond .assign) := by
    intro src src' _ ts us hts _ _
    refine .ok ?_ hts
    rcases ts with _ | ⟨t, _ | ⟨t', ts⟩⟩ <;> rcases us with _ | ⟨u, _ | ⟨u', us⟩⟩ <;>
      simp_all [Token.strip]
  have hexpr : placeless.Alike Expr.strip (expr m) (expr m) := expr_alike rfl
  refine hsecond.bind fun b b' hb => ?_
  obtain rfl : b = b' := hb
  exact Comparison.Alike.ite (assignStmt_alike hexpr) (exprStmt_alike hexpr)

end Parser

open Owl.Parser

/-! ### Programs -/

/-- Where reading goes on behind a fault depends on no place. -/
theorem skipTokens_alike (hsrc : src.last.strip = src'.last.strip) {previous previous' : Token}
    (hprevious : previous.strip = previous'.strip) (hts : ts.map Token.strip = us.map Token.strip) :
    Outcome id (skipTokens src previous ts) (skipTokens src' previous' us) := by
  induction ts generalizing us previous previous' with
  | nil =>
    obtain rfl := List.map_eq_nil_iff.mp hts.symm
    rw [skipTokens, skipTokens, Token.kind_eq hsrc, Token.kind_eq hprevious]
    split
    · exact .ok rfl rfl
    · exact .stop
  | cons t ts ih =>
    obtain ⟨u, us, rfl, hword, hrest⟩ := List.map_eq_cons_iff.mp hts.symm
    rw [skipTokens, skipTokens, Token.kind_eq hword, Token.kind_eq hprevious]
    split
    · exact .ok rfl hts
    · exact ih hword.symm hrest.symm

theorem recover_alike (hsrc : src.last.strip = src'.last.strip)
    (hts : ts.map Token.strip = us.map Token.strip) :
    Outcome id (recover src ts) (recover src' us) := by
  cases ts with
  | nil =>
    obtain rfl := List.map_eq_nil_iff.mp hts.symm
    exact .stop
  | cons t ts =>
    obtain ⟨u, us, rfl, hword, hrest⟩ := List.map_eq_cons_iff.mp hts.symm
    rw [recover, recover, Token.kind_eq hword]
    split
    · exact .ok rfl hts
    · exact skipTokens_alike hsrc hword.symm hrest.symm

namespace Reading

/-- Readings of the same items, up to places, that end alike. -/
structure Alike (r r' : Reading) : Prop where
  items : r.items.map Item.strip = r'.items.map Item.strip
  stop? : r.stop? = r'.stop?

/-- Each round reads an item or recovers from a fault, alike on both sides. -/
theorem itemsFrom_alike (hsrc : src.last.strip = src'.last.strip) (bound rounds : Nat)
    (hts : ts.map Token.strip = us.map Token.strip) :
    (itemsFrom src bound rounds ts).Alike (itemsFrom src' bound rounds us) := by
  induction rounds generalizing ts us with
  | zero => exact ⟨rfl, rfl⟩
  | succ rounds ih =>
    have hhead : (ts.headD src.last).kind = (us.headD src'.last).kind := by
      cases ts <;> cases us <;> simp_all [Token.strip]
    rw [itemsFrom, itemsFrom, hhead]
    split
    · exact ⟨rfl, rfl⟩
    · have hitem : placeless.Alike Item.strip (item bound) (item bound) :=
        item_alike placeless_names rfl
      have h := hitem _ _ (strip_headD hsrc hts) hsrc hts rfl rfl
      generalize item bound src ts = first at h ⊢
      generalize item bound src' us = second at h ⊢
      cases h with
      | ok value rest =>
        have hmore := ih rest
        exact ⟨by simp only [List.map_cons, value, hmore.items], hmore.stop?⟩
      | stop => exact ⟨rfl, rfl⟩
      | fail error rest =>
        -- the fault is an item whether or not reading recovers from it
        have hrec := recover_alike hsrc rest
        dsimp only
        generalize recover src _ = first at hrec ⊢
        generalize recover src' _ = second at hrec ⊢
        cases hrec with
        | ok value rest =>
          have hmore := ih rest
          exact ⟨by simp only [List.map_cons, Item.strip, error, hmore.items], hmore.stop?⟩
        | stop => exact ⟨by simp only [List.map_cons, Item.strip, error, List.map_nil], rfl⟩
        | fail => exact ⟨by simp only [List.map_cons, Item.strip, error, List.map_nil], rfl⟩

theorem ofTokens_alike (file : String) (hts : ts.map Token.strip = us.map Token.strip) :
    (ofTokens file ts).Alike (ofTokens file us) := by
  have hlast : ts.getLast?.map Token.strip = us.getLast?.map Token.strip := by
    rw [← List.getLast?_map, ← List.getLast?_map, hts]
  have hlength : ts.length = us.length := by
    simpa using congrArg List.length hts
  rw [ofTokens, ofTokens, hlength]
  cases h : ts.getLast? <;> cases h' : us.getLast? <;>
    simp only [h, h', Option.map_some, Option.map_none, reduceCtorEq] at hlast
  · exact ⟨rfl, rfl⟩
  · exact itemsFrom_alike (Option.some.inj hlast) _ _ hts

/-- Which faults are recorded depends on where they stand among the items only. -/
theorem recorded_strip (afterFault : Bool) (items : List Item) :
    (recorded afterFault items).map ParseError.strip =
      recorded afterFault (items.map Item.strip) := by
  induction items generalizing afterFault with
  | nil => rfl
  | cons item items ih =>
    cases item with
    | fault e =>
      cases afterFault
      · exact congrArg (e.strip :: ·) (ih true)
      · exact ih true
    | _ => exact ih false

/-- Stripping a program strips its items. -/
theorem program_strip (r : Reading) :
    r.program.strip = Reading.program { r with items := r.items.map Item.strip } := by
  simp only [program, Program.strip, stripStmts_eq_map, List.map_filterMap, List.filterMap_map,
    Program.mk.injEq, and_true]
  refine ⟨?_, ?_, ?_⟩ <;> congr 1 <;> funext item <;> cases item <;> rfl

end Reading

/-- Results of reading that differ only in places. -/
inductive ReadAlike : Except ParseFailure Program → Except ParseFailure Program → Prop
  | program {p q : Program} (h : p.strip = q.strip) : ReadAlike (.ok p) (.ok q)
  | fault {e f : ParseError} (h : e.strip = f.strip) :
      ReadAlike (.error (.fault e)) (.error (.fault f))
  | stop {cause : ParseStop} : ReadAlike (.error (.stop cause)) (.error (.stop cause))

/-- The first fault on record is the one that is reported. -/
theorem Reading.result_alike {r r' : Reading} (h : r.Alike r') :
    ReadAlike r.result r'.result := by
  have herrors : r.errors.map ParseError.strip = r'.errors.map ParseError.strip := by
    rw [Reading.errors, Reading.errors, Reading.recorded_strip, Reading.recorded_strip, h.items]
  have hprogram : r.program.strip = r'.program.strip := by
    rw [Reading.program_strip, Reading.program_strip, Reading.program, Reading.program, h.items]
  rw [Reading.result, Reading.result, h.stop?]
  cases r'.stop? with
  | some cause => exact .stop
  | none =>
    generalize r.errors = es at herrors ⊢
    generalize r'.errors = es' at herrors ⊢
    cases es <;> cases es' <;> simp only [List.map_cons, List.map_nil, reduceCtorEq] at herrors
    · exact .program hprogram
    · exact .fault (List.cons.inj herrors).1

/-- The readings of lists that differ in their places are alike. -/
theorem parse_alike (file : String) (h : ts.map Token.strip = us.map Token.strip) :
    ReadAlike (parse file ts) (parse file us) :=
  Reading.result_alike (Reading.ofTokens_alike file h)

end Owl
