/-
Tokens tile the source.

A source text is a sequence of gaps and lexemes, `Tiled`, in which every token
stands at the place that the characters in front of its lexeme give it.
-/
import Owl.Proofs.Scanning

namespace Owl

variable {rest cs before item lexeme taken : List Char} {c : Char}

/-! ### Places -/

/-- The place behind a text: its lines are counted by line feeds, its columns by the characters
since the last line feed. -/
def Position.behind (cs : List Char) : Position where
  line := 1 + cs.count '\n'
  column := 1 + (cs.reverse.takeWhile (· != '\n')).length

theorem Position.after_behind (cs : List Char) (c : Char) :
    (Position.behind cs).after c = Position.behind (cs ++ [c]) := by
  by_cases hc : c = '\n'
  · subst hc
    simp [Position.behind, Position.after]
    omega
  · simp [Position.behind, Position.after, hc]
    omega

/-- Counting character by character gives the place `Position.behind` that a text as a whole
determines. -/
theorem Position.afterAll_behind (before cs : List Char) :
    (Position.behind before).afterAll cs = Position.behind (before ++ cs) := by
  induction cs generalizing before with
  | nil => simp
  | cons c cs ih =>
    rw [Position.afterAll_cons, Position.after_behind, ih, List.append_assoc, List.singleton_append]

/-! ### Tilings -/

/-- What stands between two tokens, in front of `rest`. -/
inductive IsGap : List Char → List Char → Prop
  | nil {rest : List Char} : IsGap [] rest
  | cons {item gap rest : List Char} (first : GapItem item (gap ++ rest)) (more : IsGap gap rest) :
      IsGap (item ++ gap) rest

/-- `Tiled before text rest tokens`: between `before` and `rest`, the text is made of gaps and the
lexemes of the tokens, and each token's place is that behind all characters in front of it. -/
inductive Tiled : List Char → List Char → List Char → List Token → Prop
  | gap {before gap rest : List Char} (isGap : IsGap gap rest) : Tiled before gap rest []
  | token {before gap lexeme text rest : List Char} {t : Token} {tokens : List Token}
      (isGap : IsGap gap (lexeme ++ text ++ rest)) (isLexeme : Lexeme t.kind t.text lexeme)
      (place : t.pos = .behind (before ++ gap))
      (more : Tiled (before ++ gap ++ lexeme) text rest tokens) :
      Tiled before (gap ++ lexeme ++ text) rest (t :: tokens)

theorem Tiled.cons_item {text : List Char} {tokens : List Token}
    (first : GapItem item (text ++ rest)) (more : Tiled (before ++ item) text rest tokens) :
    Tiled before (item ++ text) rest tokens := by
  cases more with
  | gap isGap => exact .gap (.cons first isGap)
  | token isGap isLexeme place more =>
    rename_i gap lexeme text' t tokens'
    rw [← List.append_assoc, ← List.append_assoc]
    refine .token (.cons ?_ isGap) isLexeme ?_ ?_
    · simpa using first
    · rw [place, List.append_assoc]
    · simpa using more

theorem Tiled.cons_token {text : List Char} {t : Token} {tokens : List Token}
    (isLexeme : Lexeme t.kind t.text lexeme) (place : t.pos = .behind before)
    (more : Tiled (before ++ lexeme) text rest tokens) :
    Tiled before (lexeme ++ text) rest (t :: tokens) := by
  have h : Tiled before ([] ++ lexeme ++ text) rest (t :: tokens) :=
    .token .nil isLexeme (by simpa using place) (by simpa using more)
  simpa using h

/-! ### Reading on -/

theorem GapItem.ne_nil (h : GapItem item rest) : item ≠ [] := by
  cases h <;> simp

theorem TokenKind.fixedText?_ne_empty (kind : TokenKind) : kind.fixedText? ≠ some "" := by
  cases kind <;> decide

theorem Lexeme.ne_nil {kind : TokenKind} {text : String} (h : Lexeme kind text lexeme) :
    lexeme ≠ [] := by
  cases h with
  | fixed h =>
    intro hnil
    rw [String.toList_eq_nil_iff] at hnil
    exact kind.fixedText?_ne_empty (hnil ▸ h)
  | name isName =>
    obtain ⟨c, hc, -⟩ := isName.start
    rintro rfl
    simp at hc
  | int nonempty => exact nonempty
  | float => simp
  | string => simp

theorem length_rest_le (h : c :: cs = taken ++ rest) (hne : taken ≠ []) :
    rest.length ≤ cs.length := by
  have hlength := congrArg List.length h
  have hpos := List.length_pos_iff.mpr hne
  rw [List.length_cons, List.length_append] at hlength
  omega

theorem Scan.length_gap (h : Scan.next (c :: cs) = .gap taken rest) : rest.length ≤ cs.length := by
  have hsound := Scan.next_sound c cs
  rw [h] at hsound
  exact length_rest_le hsound.1 hsound.2.ne_nil

theorem Scan.length_token {kind : TokenKind} {text : String}
    (h : Scan.next (c :: cs) = .token kind text taken rest) : rest.length ≤ cs.length := by
  have hsound := Scan.next_sound c cs
  rw [h] at hsound
  exact length_rest_le hsound.1 hsound.2.ne_nil

/-- What a reading that starts behind `before` says of the text `cs` it reads. -/
def Lexed.Tiles (before cs : List Char) (r : Lexed) : Prop :=
  match r.error? with
  | none => ∃ tokens, r.tokens = tokens ++ [⟨.eof, "", .behind (before ++ cs)⟩] ∧
      Tiled before cs [] tokens
  | some e => ∃ text rest, cs = text ++ rest ∧ Tiled before text rest r.tokens ∧
      e.pos = .behind (before ++ text) ∧ Offends e.fault rest

theorem Lexed.Tiles.nil (before : List Char) :
    Lexed.Tiles before [] ⟨[⟨.eof, "", .behind before⟩], none⟩ :=
  ⟨[], by simp, .gap .nil⟩

theorem Lexed.Tiles.cons_item {r : Lexed} (first : GapItem item cs)
    (more : Lexed.Tiles (before ++ item) cs r) : Lexed.Tiles before (item ++ cs) r := by
  obtain ⟨read, error?⟩ := r
  cases error? with
  | none =>
    obtain ⟨tokens, htokens, htiled⟩ := more
    exact ⟨tokens, by simpa using htokens, .cons_item (by simpa using first) htiled⟩
  | some e =>
    obtain ⟨text, rest, rfl, htiled, hpos, hfault⟩ := more
    exact ⟨item ++ text, rest, by simp, .cons_item first htiled, by simpa using hpos, hfault⟩

theorem Lexed.Tiles.cons_token {t : Token} {r : Lexed} (isLexeme : Lexeme t.kind t.text lexeme)
    (place : t.pos = .behind before) (more : Lexed.Tiles (before ++ lexeme) cs r) :
    Lexed.Tiles before (lexeme ++ cs) ⟨t :: r.tokens, r.error?⟩ := by
  obtain ⟨read, error?⟩ := r
  cases error? with
  | none =>
    obtain ⟨tokens, htokens, htiled⟩ := more
    exact ⟨t :: tokens, by simpa using htokens, .cons_token isLexeme place htiled⟩
  | some e =>
    obtain ⟨text, rest, rfl, htiled, hpos, hfault⟩ := more
    exact ⟨lexeme ++ text, rest, by simp, .cons_token isLexeme place htiled, by simpa using hpos,
      hfault⟩

/-- Each scan takes a character or more, so as many scans as there are characters are enough. -/
theorem Lexed.ofChars_tiles (fuel : Nat) (before cs : List Char) (h : cs.length ≤ fuel) :
    Lexed.Tiles before cs (Lexed.ofChars fuel (.behind before) cs) := by
  -- the characters in front grow with each scan, and with them the place
  induction fuel generalizing before cs with
  | zero =>
    obtain rfl : cs = [] := List.length_eq_zero_iff.mp (Nat.le_zero.mp h)
    exact .nil before
  | succ fuel ih =>
    cases cs with
    | nil => exact .nil before
    | cons c cs =>
      have hsound := Scan.next_sound c cs
      rw [Lexed.ofChars]
      split
      · next taken rest hnext =>
        rw [hnext] at hsound
        obtain ⟨hcs, first⟩ := hsound
        rw [hcs, Position.afterAll_behind]
        exact .cons_item first
          (ih _ _ ((Scan.length_gap hnext).trans (Nat.le_of_succ_le_succ h)))
      · next kind text taken rest hnext =>
        rw [hnext] at hsound
        obtain ⟨hcs, isLexeme⟩ := hsound
        rw [hcs, Position.afterAll_behind]
        exact .cons_token isLexeme rfl
          (ih _ _ ((Scan.length_token hnext).trans (Nat.le_of_succ_le_succ h)))
      · next f hnext =>
        rw [hnext] at hsound
        exact ⟨[], c :: cs, rfl, .gap .nil, by simp, hsound⟩

theorem Lexed.tiles_lex (source : String) : Lexed.Tiles [] source.toList (lex source) :=
  Lexed.ofChars_tiles source.toList.length [] source.toList (Nat.le_refl _)

/-- **Tokens tile the source.**  Where a text can be read, its tokens but the last tile it, and the
last one marks its end.  Where it cannot, the tokens that were read tile the text in front of the
first character of something that has the fault, and the fault's place is that of this character. -/
theorem lex_tiles (source : String) :
    match tokenize source with
    | .ok tokens => ∃ body, tokens = body ++ [⟨.eof, "", .behind source.toList⟩] ∧
        Tiled [] source.toList [] body
    | .error e => ∃ text rest, source.toList = text ++ rest ∧
        Tiled [] text rest (lex source).tokens ∧ e.pos = .behind text ∧ Offends e.fault rest := by
  have h := Lexed.tiles_lex source
  rw [Lexed.Tiles] at h
  rw [tokenize]
  cases herror : (lex source).error? with
  | none =>
    rw [herror] at h
    exact h
  | some e =>
    rw [herror] at h
    exact h

end Owl
