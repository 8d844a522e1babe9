/-
What is recorded when reading recovers from faults.

After a fault, reading passes over tokens and goes on.  It still comes to the first
end mark, and each fault is shown by a token behind those that showed the faults
before it.

* `Reading.recorded_apart` — between two faults that are recorded, an item was read.
-/
import Owl.Proofs.Faithful

namespace Owl

open Owl.Parser

variable {ts rest : List Token} {t last : Token} {e : ParseError} {i : Item} {more : Reading}
  {rounds : Nat}

/-! ### Recovery -/

theorem firstEnd_eof (h : t.kind = .eof) (ts : List Token) : firstEnd (t :: ts) = 0 := by
  simp [firstEnd, List.findIdx_cons, h]

theorem firstEnd_pos (h : t.kind ≠ .eof) (ts : List Token) : 0 < firstEnd (t :: ts) := by
  have hmeasure := (Took.cons h ts).firstEnd_le
  omega

theorem skipTokens_took (src : TokenSource) (previous : Token) (hend : HasEnd ts) :
    ∃ rest, skipTokens src previous ts = .ok () rest ∧ Took 0 ts rest := by
  induction ts generalizing previous with
  | nil =>
    obtain ⟨t, rest, h⟩ := hend.exists_cons
    cases h
  | cons t ts ih =>
    rw [skipTokens]
    split
    · exact ⟨t :: ts, rfl, .refl _⟩
    · next h =>
      have ht : t.kind ≠ .eof := by
        intro ht
        simp [ht] at h
      have took := Took.cons ht ts
      obtain ⟨rest, hrun, took'⟩ := ih t (took.hasEnd hend)
      exact ⟨rest, hrun, (took.trans took').mono (Nat.zero_le _)⟩

/-- Recovery stays at an end mark and passes over any other token. -/
theorem recover_took (src : TokenSource) (hend : HasEnd (t :: ts)) :
    ∃ rest, recover src (t :: ts) = .ok () rest ∧
      (t.kind = .eof ∧ rest = t :: ts ∨ Took 1 (t :: ts) rest) := by
  by_cases ht : t.kind = .eof
  · exact ⟨t :: ts, by simp [recover, ht], .inl ⟨ht, rfl⟩⟩
  · have took := Took.cons ht ts
    obtain ⟨rest, hrun, took'⟩ := skipTokens_took src t (took.hasEnd hend)
    exact ⟨rest, by simp [recover, ht, hrun], .inr (took.trans took')⟩

/-! ### Item after item -/

def Item.fault? : Item → Option ParseError
  | .fault e => some e
  | _ => none

/-- All faults among some items, recorded or not. -/
def faults (items : List Item) : List ParseError := items.filterMap Item.fault?

/-- A fault is never built from tokens. -/
theorem item_not_fault {src : TokenSource} (rounds : Nat) (h : item rounds src ts = .ok i rest) :
    i.isFault = false := by
  obtain ⟨_, _, _, -, -, -, hread, -⟩ :=
    (item_read (n := 0) (d := 1) (Nat.le_add_left 1 rounds)).of_ok h
  cases hread with
  | importing | function | stmt => rfl

theorem Parser.Ended.took {α : Type} {post : α → List Token → List Word → Prop} {n d k : Nat}
    {a : α} (h : Ended n d k post ts (.ok a rest)) : Took k ts rest := by
  cases h with
  | ok split inner enough => exact ⟨_, split, inner, enough⟩

namespace Reading

/-- How a reading of `ts` goes: where it stops, a numeral has no value; otherwise it comes to the
first end mark.  Each fault is shown by a token behind the one that shows the fault before it. -/
structure Sound (ts : List Token) (r : Reading) : Prop where
  stops : ∀ cause, r.stop? = some cause → ∃ t ∈ ts, t.Unreadable cause
  rest : r.stop? = none → r.rest = ts.drop (firstEnd ts)
  shown : ∀ e ∈ faults r.items, e.ShownIn ts
  rising : (faults r.items).Pairwise fun e e' => e'.left < e.left

/-- What holds of a reading from a place further back holds from here, but for the items. -/
theorem Sound.behind {k : Nat} (took : Took k ts rest) (h : more.Sound rest) : more.Sound ts := by
  refine ⟨fun cause hcause => ?_, fun hstop => ?_, fun e he => (h.shown e he).behind took, h.rising⟩
  · obtain ⟨t, ht, hunreadable⟩ := h.stops cause hcause
    obtain ⟨taken, rfl, -, -⟩ := took
    exact ⟨t, List.mem_append_right _ ht, hunreadable⟩
  · rw [took.drop_firstEnd]
    exact h.rest hstop

theorem Sound.item (hi : i.isFault = false) (h : more.Sound ts) :
    Sound ts { more with items := i :: more.items } := by
  have hfaults : faults (i :: more.items) = faults more.items := by
    cases i with
    | fault e => cases hi
    | _ => rfl
  exact ⟨h.stops, h.rest, by rw [hfaults]; exact h.shown, by rw [hfaults]; exact h.rising⟩

theorem Sound.fault (shown : e.ShownIn ts) (hbehind : ∀ e' ∈ faults more.items, e'.left < e.left)
    (h : more.Sound ts) : Sound ts { more with items := .fault e :: more.items } := by
  have hfaults : faults (.fault e :: more.items) = e :: faults more.items := rfl
  refine ⟨h.stops, h.rest, ?_, ?_⟩
  · rw [hfaults]
    intro e' he'
    rcases List.mem_cons.mp he' with rfl | he'
    · exact shown
    · exact h.shown e' he'
  · rw [hfaults, List.pairwise_cons]
    exact ⟨hbehind, h.rising⟩

/-- The bounds are large enough to read the tokens. -/
structure Enough (bound rounds : Nat) (ts : List Token) : Prop where
  hasEnd : HasEnd ts
  bound : firstEnd ts + 2 ≤ bound
  rounds : firstEnd ts + 1 ≤ rounds

theorem Enough.next {bound : Nat} (h : Enough bound (rounds + 1) ts) (took : Took 1 ts rest) :
    Enough bound rounds rest := by
  have hmeasure := took.firstEnd_le
  have hbound := h.bound
  have hrounds := h.rounds
  exact ⟨took.hasEnd h.hasEnd, by omega, by omega⟩

theorem Enough.item_ended {bound : Nat} (h : Enough bound rounds ts) (src : TokenSource) :
    Ended (firstEnd ts + 1) 0 1 (fun i us ws => i.Read src.file us ∧ ws = i.words) ts
      (item bound src ts) :=
  item_read h.bound _ rfl

theorem itemsFrom_eof (src : TokenSource) (bound rounds : Nat) (ht : t.kind = .eof)
    (ts : List Token) : itemsFrom src bound (rounds + 1) (t :: ts) = ⟨[], none, t :: ts⟩ := by
  simp [itemsFrom, ht]

/-- Reading on from any place: each round passes over a token, so the bounds are not reached. -/
theorem itemsFrom_sound (src : TokenSource) {bound : Nat} (h : Enough bound rounds ts) :
    (itemsFrom src bound rounds ts).Sound ts := by
  induction rounds generalizing ts with
  | zero => exact absurd h.rounds (by omega)
  | succ rounds ih =>
    obtain ⟨t, ts, rfl⟩ := h.hasEnd.exists_cons
    by_cases ht : t.kind = .eof
    · rw [itemsFrom_eof src bound rounds ht]
      exact ⟨by simp, fun _ => by rw [firstEnd_eof ht]; rfl, by simp [faults], by simp [faults]⟩
    · have hended := h.item_ended src
      rw [itemsFrom, List.headD_cons, if_neg (by simpa using ht)]
      generalize hitem : item bound src (t :: ts) = outcome at hended
      cases hended with
      | ok split inner enough =>
        have took : Took 1 (t :: ts) _ := ⟨_, split, inner, enough⟩
        exact .item (item_not_fault bound hitem) ((ih (h.next took)).behind took)
      | stop hstop =>
        refine ⟨?_, by simp, by simp [faults], by simp [faults]⟩
        rintro _ ⟨⟩
        exact hstop h.hasEnd (Nat.lt_succ_self _)
      | fail hfail =>
        obtain ⟨took, shown, reached⟩ := hfail h.hasEnd (Nat.lt_succ_self _)
        obtain ⟨u, rest, rfl⟩ := (took.hasEnd h.hasEnd).exists_cons
        obtain ⟨rest', hrun, hrest⟩ := recover_took src (took.hasEnd h.hasEnd)
        simp only [hrun]
        rcases hrest with ⟨hu, rfl⟩ | took'
        · -- The fault came to the end mark, so that nothing is read behind it.
          have hpos := firstEnd_pos ht ts
          have hrounds := h.rounds
          obtain ⟨rounds, rfl⟩ : ∃ m, rounds = m + 1 := ⟨rounds - 1, by omega⟩
          have hbound := h.bound
          have henough : Enough bound (rounds + 1) (u :: rest) :=
            ⟨took.hasEnd h.hasEnd, by rw [firstEnd_eof hu]; omega, by rw [firstEnd_eof hu]; omega⟩
          refine .fault shown ?_ ((ih henough).behind took)
          simp [itemsFrom_eof src bound rounds hu, faults]
        · have hmore := ih (h.next (took.trans took'))
          refine .fault shown (fun e' he' => ?_) ((hmore.behind took').behind took)
          have hleft := (hmore.shown e' he').left_le
          have hlength := took'.length_le
          omega

/-! ### Recorded faults -/

theorem recorded_item (hi : i.isFault = false) (afterFault : Bool) (items : List Item) :
    recorded afterFault (i :: items) = recorded false items := by
  cases i with
  | fault e => cases hi
  | _ => rfl

theorem recorded_sublist (afterFault : Bool) (items : List Item) :
    (recorded afterFault items).Sublist (faults items) := by
  induction items generalizing afterFault with
  | nil => exact .slnil
  | cons i items ih =>
    cases i with
    | fault e =>
      show (if afterFault then _ else _ : List ParseError).Sublist (e :: faults items)
      split
      · exact (ih true).cons e
      · exact (ih true).cons_cons e
    | importing i => exact ih false
    | function f => exact ih false
    | stmt s => exact ih false

/-- The next fault that is recorded.  If the last item was a fault, then an item was read before
it. -/
theorem recorded_next {afterFault : Bool} {items : List Item} {later : List ParseError}
    (h : recorded afterFault items = e :: later) :
    ∃ front back : List Item, items = front ++ .fault e :: back ∧ recorded true back = later ∧
      (afterFault = true → ∃ i ∈ front, i.isFault = false) := by
  induction items generalizing afterFault with
  | nil => cases h
  | cons i items ih =>
    cases hi : i.isFault with
    | false =>
      rw [recorded_item hi] at h
      obtain ⟨front, back, rfl, hlater, -⟩ := ih h
      exact ⟨i :: front, back, rfl, hlater, fun _ => ⟨i, List.mem_cons_self .., hi⟩⟩
    | true =>
      obtain ⟨e', rfl⟩ : ∃ e', i = .fault e' := by
        cases i with
        | fault e' => exact ⟨e', rfl⟩
        | _ => cases hi
      cases afterFault with
      | false =>
        obtain ⟨rfl, hlater⟩ := List.cons.inj h
        exact ⟨[], items, rfl, hlater, nofun⟩
      | true =>
        have hrest : recorded true items = e :: later := h
        obtain ⟨front, back, rfl, hlater, hread⟩ := ih hrest
        obtain ⟨i, hi, hfault⟩ := hread rfl
        refine ⟨.fault e' :: front, back, rfl, hlater, fun _ => ⟨i, ?_, hfault⟩⟩
        exact List.mem_cons_of_mem _ hi

theorem recorded_at {afterFault : Bool} {items : List Item} {earlier later : List ParseError}
    (h : recorded afterFault items = earlier ++ e :: later) :
    ∃ front back : List Item, items = front ++ .fault e :: back ∧ recorded true back = later := by
  induction earlier generalizing afterFault items with
  | nil =>
    obtain ⟨front, back, hitems, hlater, -⟩ := recorded_next h
    exact ⟨front, back, hitems, hlater⟩
  | cons e' earlier ih =>
    obtain ⟨front, back, rfl, hback, -⟩ := recorded_next h
    obtain ⟨front', back', rfl, hlater⟩ := ih hback
    exact ⟨front ++ .fault e' :: front', back', by simp, hlater⟩

/-- Between one fault and another one, an import, a function or a statement was read. -/
def ReadBetween (items : List Item) (e e' : ParseError) : Prop :=
  ∃ front mid back : List Item, items = front ++ .fault e :: (mid ++ .fault e' :: back) ∧
    ∃ i ∈ mid, i.isFault = false

theorem recorded_apart {items : List Item} {e' : ParseError}
    (h : [e, e'] <:+: recorded false items) : ReadBetween items e e' := by
  obtain ⟨earlier, later, h⟩ := h
  obtain ⟨front, back, rfl, hback⟩ := recorded_at (e := e) (by simpa using h.symm)
  obtain ⟨mid, back, rfl, -, hread⟩ := recorded_next hback
  exact ⟨front, mid, back, rfl, hread rfl⟩

end Reading

/-! ### Whole lists of tokens -/

def ParseError.index (e : ParseError) (ts : List Token) : Nat := ts.length - e.left

/-- The recorded faults of a reading of `ts` are in order: each one is shown by a token of `ts`,
their places rise, and between one and the next something was read. -/
structure Reading.Orderly (ts : List Token) (r : Reading) : Prop where
  shown : ∀ e ∈ r.errors, ts[e.index ts]? = some e.token
  rising : r.errors.Pairwise fun e e' => e.index ts < e'.index ts
  apart : ∀ e e', [e, e'] <:+: r.errors → ReadBetween r.items e e'

theorem Reading.Sound.orderly {r : Reading} (h : r.Sound ts) : r.Orderly ts := by
  have hsublist : r.errors.Sublist (faults r.items) := recorded_sublist false r.items
  refine ⟨fun e he => ?_, ?_, fun e e' => recorded_apart⟩
  · obtain ⟨front, back, rfl, hleft⟩ := h.shown e (hsublist.subset he)
    have hindex : e.index (front ++ e.token :: back) = front.length := by
      rw [ParseError.index, List.length_append, List.length_cons]
      omega
    rw [hindex]
    simp
  · refine (h.rising.sublist hsublist).imp_of_mem fun {e e'} he he' hlt => ?_
    have hle := (h.shown e (hsublist.subset he)).left_le
    rw [ParseError.index, ParseError.index]
    omega

namespace Reading

theorem ofTokens_eq (file : String) (hts : ts.getLast? = some last) : ofTokens file ts =
      itemsFrom ⟨file, last⟩ (2 * (ts.length + 1)) (2 * (ts.length + 1)) ts := by
  rw [ofTokens, hts]

theorem enough_ofTokens (hts : ts.getLast? = some last) (hlast : last.kind = .eof) :
    Enough (2 * (ts.length + 1)) (2 * (ts.length + 1)) ts := by
  have hfirst : firstEnd ts ≤ ts.length := List.findIdx_le_length
  exact ⟨⟨last, List.mem_of_getLast? hts, hlast⟩, by omega, by omega⟩

theorem ofTokens_sound (file : String) (hts : ts.getLast? = some last) (hlast : last.kind = .eof) :
    (ofTokens file ts).Sound ts := by
  rw [ofTokens_eq file hts]
  exact itemsFrom_sound _ (enough_ofTokens hts hlast)

end Reading

/-- Tokens that end with an end mark are read up to the first end mark, and give a program if no
fault is recorded and the first recorded fault otherwise; only a numeral that has no value stops
the reading. -/
theorem parse_ends (file : String) {ts : List Token} {last : Token}
    (hts : ts.getLast? = some last) (hlast : last.kind = .eof) :
    (match parse file ts with
      | .ok _ => (Reading.ofTokens file ts).errors = [] ∧
          (Reading.ofTokens file ts).rest = ts.drop (firstEnd ts)
      | .error (.fault e) => (Reading.ofTokens file ts).errors.head? = some e ∧
          (Reading.ofTokens file ts).rest = ts.drop (firstEnd ts)
      | .error (.stop cause) => ∃ t ∈ ts, t.Unreadable cause) ∧
    (Reading.ofTokens file ts).Orderly ts := by
  have hsound := Reading.ofTokens_sound file hts hlast
  refine ⟨?_, hsound.orderly⟩
  rw [parse, Reading.result]
  cases hstop : (Reading.ofTokens file ts).stop? with
  | some cause => exact hsound.stops cause hstop
  | none =>
    cases herrors : (Reading.ofTokens file ts).errors with
    | nil => exact ⟨rfl, hsound.rest hstop⟩
    | cons e later => exact ⟨rfl, hsound.rest hstop⟩

/-- Two faults are recorded, with a statement between them; an end mark stands inside. -/
theorem parse_ends_two_faults :
    let word (kind : TokenKind) : Token := ⟨kind, "", .start⟩
    let ts := [.kwLet, .kwLet, .kwBreak, .kwLet, .eof, .eof].map word
    ts.getLast? = some (word .eof) ∧
      parse "" ts = .error (.fault ⟨.missing "variable name", word .kwLet, 5⟩) ∧
      (Reading.ofTokens "" ts).errors.map (·.index ts) = [1, 4] ∧
      (Reading.ofTokens "" ts).rest = ts.drop (firstEnd ts) ∧
      (Reading.ofTokens "" ts).Orderly ts := by
  intro word ts
  have hts : ts.getLast? = some (word .eof) := rfl
  have hparse : parse "" ts = .error (.fault ⟨.missing "variable name", word .kwLet, 5⟩) := by rfl
  have hends := parse_ends "" hts rfl
  rw [hparse] at hends
  exact ⟨hts, hparse, by decide +kernel, hends.1.2, hends.2⟩

end Owl
