/-
What one scan of a source text finds.

The shapes of what a text is made of are given without the scanner: `GapItem` for
what stands between tokens, `StringBody` for the inside of a string, `Lexeme` for
the characters of a token, and `Offends` for a text that starts with a fault.

* `Scan.next_sound` — a scan takes a nonempty front of the text and leaves the
  rest; the front is a gap item or a lexeme, or the text starts with a fault.
-/
import Owl.Token.Lexer
import Mathlib.Data.List.Infix
import Mathlib.Data.List.TakeWhile

namespace Owl

variable {cs : List Char} {c : Char}

/-! ### Shapes -/

def layoutChars : List Char := [' ', '\t', '\r', '\n']

/-- One item between tokens, in front of `rest`: a layout character, a comment up to the end of its
line, or a comment up to its first end mark. -/
inductive GapItem : List Char → List Char → Prop
  | layout {c : Char} {rest : List Char} (mem : c ∈ layoutChars) : GapItem [c] rest
  | lineComment {body rest : List Char} (inLine : '\n' ∉ body)
      (ends : ∀ c ∈ rest.head?, c = '\n') : GapItem ('/' :: '/' :: body) rest
  | blockComment {body rest : List Char} (first : ¬ ['*', '/'] <:+: body) :
      GapItem ('/' :: '*' :: '*' :: (body ++ ['*', '/'])) rest

/-- The inside of a string, without its quotes, and the string it denotes. -/
inductive StringBody : List Char → List Char → Prop
  | nil : StringBody [] []
  | plain {c : Char} {body value : List Char} (ordinary : c ∉ ['"', '\\', '\n'])
      (more : StringBody body value) : StringBody (c :: body) (c :: value)
  | lineFeed {body value : List Char} (more : StringBody body value) :
      StringBody ('\\' :: 'n' :: body) ('\n' :: value)
  | tab {body value : List Char} (more : StringBody body value) :
      StringBody ('\\' :: 't' :: body) ('\t' :: value)
  | carriageReturn {body value : List Char} (more : StringBody body value) :
      StringBody ('\\' :: 'r' :: body) ('\r' :: value)
  /-- A backslash in front of any other character is dropped. -/
  | kept {c : Char} {body value : List Char} (other : c ∉ ['n', 't', 'r'])
      (more : StringBody body value) : StringBody ('\\' :: c :: body) (c :: value)

/-- The text that all tokens of a kind have: keywords, operators and delimiters. -/
def TokenKind.fixedText? : TokenKind → Option String
  | .kwFn => some "fn"
  | .kwLet => some "let"
  | .kwMut => some "mut"
  | .kwWhile => some "while"
  | .kwBreak => some "break"
  | .kwContinue => some "continue"
  | .kwFor => some "for"
  | .kwIn => some "in"
  | .kwLoop => some "loop"
  | .kwFrom => some "from"
  | .kwPython => some "python"
  | .kwImport => some "import"
  | .kwAs => some "as"
  | .kwIf => some "if"
  | .kwElse => some "else"
  | .kwReturn => some "return"
  | .kwTrue => some "true"
  | .kwFalse => some "false"
  | .kwMatch => some "match"
  | .plus => some "+"
  | .minus => some "-"
  | .star => some "*"
  | .slash => some "/"
  | .percent => some "%"
  | .eq => some "=="
  | .ne => some "!="
  | .lt => some "<"
  | .gt => some ">"
  | .le => some "<="
  | .ge => some ">="
  | .assign => some "="
  | .lparen => some "("
  | .rparen => some ")"
  | .lbrace => some "\x7b"
  | .rbrace => some "\x7d"
  | .lbracket => some "["
  | .rbracket => some "]"
  | .comma => some ","
  | .colon => some ":"
  | .arrow => some "->"
  | .fatArrow => some "=>"
  | .dot => some "."
  | .question => some "?"
  | .int | .float | .string | .bool | .ident | .newline | .eof => none

/-- A name: it starts like a word, goes on like one, and is not reserved. -/
structure IsName (cs : List Char) : Prop where
  start : ∃ c ∈ cs.head?, Scan.isWordStart c
  chars : ∀ c ∈ cs, Text.isWordChar c
  unreserved : String.ofList cs ∉ Scan.keywords.map Prod.fst

theorem isName_iff :
    IsName cs ↔ cs.head?.any Scan.isWordStart ∧ cs.all Text.isWordChar ∧
      String.ofList cs ∉ Scan.keywords.map Prod.fst := by
  rw [Option.any_eq_true, List.all_eq_true]
  exact ⟨fun h => ⟨h.start, h.chars, h.unreserved⟩, fun ⟨hstart, hchars, hnew⟩ =>
    ⟨hstart, hchars, hnew⟩⟩

instance (cs : List Char) : Decidable (IsName cs) := decidable_of_iff' _ isName_iff

/-- The characters of a token of a kind, and the text of the token.  The text is the characters,
save that a string's text is what the string denotes. -/
inductive Lexeme : TokenKind → String → List Char → Prop
  | fixed {kind : TokenKind} {text : String} (h : kind.fixedText? = some text) :
      Lexeme kind text text.toList
  | name {cs : List Char} (isName : IsName cs) : Lexeme .ident (String.ofList cs) cs
  | int {cs : List Char} (nonempty : cs ≠ []) (digits : ∀ c ∈ cs, Text.isDigit c) :
      Lexeme .int (String.ofList cs) cs
  | float {whole places : List Char} (nonempty : whole ≠ []) (digits : ∀ c ∈ whole, Text.isDigit c)
      (nonempty' : places ≠ []) (digits' : ∀ c ∈ places, Text.isDigit c) :
      Lexeme .float (String.ofList (whole ++ '.' :: places)) (whole ++ '.' :: places)
  | string {body value : List Char} (isBody : StringBody body value) :
      Lexeme .string (String.ofList value) ('"' :: (body ++ ['"']))

/-- The characters that start an operator, a delimiter or a string by themselves. -/
def markChars : List Char :=
  ['=', '<', '>', '+', '-', '*', '/', '%', '(', ')', '\x7b', '\x7d', '[', ']', ',', ':', '.', '?',
    '"']

/-- The text starts with something that has a fault. -/
inductive Offends : LexFault → List Char → Prop
  | unexpected {c : Char} {rest : List Char} (noLayout : c ∉ layoutChars) (noMark : c ∉ markChars)
      (noPair : c = '!' → rest.head? ≠ some '=') (noDigit : Text.isDigit c = false)
      (noWord : Scan.isWordStart c = false) : Offends (.unexpected c) (c :: rest)
  | lineFeedInString {body value rest : List Char} (isBody : StringBody body value) :
      Offends .lineFeedInString ('"' :: (body ++ '\n' :: rest))
  | openString {body value : List Char} (isBody : StringBody body value) :
      Offends .openString ('"' :: body)
  | openComment {body : List Char} (noEnd : ¬ ['*', '/'] <:+: body) :
      Offends .openComment ('/' :: '*' :: '*' :: body)
  | danglingEscape {body value : List Char} (isBody : StringBody body value) :
      Offends .danglingEscape ('"' :: (body ++ ['\\']))

namespace Scan

def Sound (cs : List Char) : Scan → Prop
  | gap taken rest => cs = taken ++ rest ∧ GapItem taken rest
  | token kind text taken rest => cs = taken ++ rest ∧ Lexeme kind text taken
  | fault f => Offends f cs

/-! ### Comments and strings -/

theorem commentBody?_some {taken rest : List Char} (h : commentBody? cs = some (taken, rest)) :
    cs = taken ++ rest ∧ ∃ body, taken = body ++ ['*', '/'] ∧ ¬ ['*', '/'] <:+: body := by
  fun_induction commentBody? cs generalizing taken rest with
  | case1 => simp at h
  | case2 rest' =>
    simp only [Option.some.injEq, Prod.mk.injEq] at h
    obtain ⟨rfl, rfl⟩ := h
    exact ⟨rfl, [], rfl, by simp⟩
  | case3 c cs hc ih =>
    obtain ⟨⟨taken', rest'⟩, h', heq⟩ := Option.map_eq_some_iff.mp h
    simp only [Prod.mk.injEq] at heq
    obtain ⟨rfl, rfl⟩ := heq
    obtain ⟨rfl, body, rfl, hbody⟩ := ih h'
    refine ⟨rfl, c :: body, rfl, ?_⟩
    rw [List.infix_cons_iff]
    rintro (hpre | hinf)
    · -- an end mark at the front would have been taken at once
      obtain ⟨tail, htail⟩ := hpre
      simp only [List.cons_append, List.nil_append, List.cons.injEq] at htail
      obtain ⟨rfl, rfl⟩ := htail
      exact hc (tail ++ ['*', '/'] ++ rest') rfl (by simp)
    · exact hbody hinf

theorem commentBody?_none (h : commentBody? cs = none) : ¬ ['*', '/'] <:+: cs := by
  fun_induction commentBody? cs with
  | case1 => simp
  | case2 => simp at h
  | case3 c cs hc ih =>
    rw [List.infix_cons_iff]
    rintro (hpre | hinf)
    · obtain ⟨tail, htail⟩ := hpre
      simp only [List.cons_append, List.nil_append, List.cons.injEq] at htail
      obtain ⟨rfl, rfl⟩ := htail
      exact hc tail rfl (by simp)
    · exact ih (by simpa using h) hinf

theorem StringBody_escape (c : Char) {body value : List Char} (more : StringBody body value) :
    StringBody ('\\' :: c :: body) (unescape c :: value) := by
  fun_cases unescape c with
  | case1 => exact .lineFeed more
  | case2 => exact .tab more
  | case3 => exact .carriageReturn more
  | case4 _ hn ht hr =>
    refine .kept ?_ more
    simp only [List.mem_cons, List.not_mem_nil, or_false, not_or]
    exact ⟨hn, ht, hr⟩

/-- A string with one more plain character or escape in front has the fault of the shorter one. -/
theorem Offends_string {f : LexFault} (front : List Char)
    (hfront : ∀ body value, StringBody body value → ∃ value', StringBody (front ++ body) value')
    (h : Offends f ('"' :: cs)) : Offends f ('"' :: (front ++ cs)) := by
  generalize htext : '"' :: cs = text at h
  cases h with
  | unexpected _ noMark =>
    simp only [List.cons.injEq] at htext
    exact absurd (htext.1 ▸ noMark) (by decide)
  | lineFeedInString isBody =>
    obtain ⟨value', hbody⟩ := hfront _ _ isBody
    simp only [List.cons.injEq, true_and] at htext
    rw [htext, ← List.append_assoc]
    exact .lineFeedInString hbody
  | openString isBody =>
    obtain ⟨value', hbody⟩ := hfront _ _ isBody
    simp only [List.cons.injEq, true_and] at htext
    rw [htext]
    exact .openString hbody
  | openComment => simp at htext
  | danglingEscape isBody =>
    obtain ⟨value', hbody⟩ := hfront _ _ isBody
    simp only [List.cons.injEq, true_and] at htext
    rw [htext, ← List.append_assoc]
    exact .danglingEscape hbody

theorem not_backslash (hend : c = '\\' → cs = [] → False)
    (hescape : ∀ d rest, c = '\\' → cs = d :: rest → False) : c ≠ '\\' := by
  intro hc
  cases cs with
  | nil => exact hend hc rfl
  | cons d rest => exact hescape d rest hc rfl

/-- The inside of a string is taken with its closing quote, or the string has a fault. -/
theorem stringBody_sound (cs : List Char) :
    match stringBody cs with
    | .ok (value, taken, rest) =>
      cs = taken ++ rest ∧ ∃ body, taken = body ++ ['"'] ∧ StringBody body value
    | .error f => Offends f ('"' :: cs) := by
  fun_induction stringBody cs with
  | case1 => exact .openString .nil
  | case2 cs => exact ⟨rfl, [], rfl, .nil⟩
  | case3 cs =>
    exact .lineFeedInString .nil
  | case4 =>
    exact .danglingEscape .nil
  | case5 c cs ih =>
    cases hr : stringBody cs with
    | error f =>
      rw [hr] at ih
      exact Offends_string ['\\', c] (fun _ _ isBody => ⟨_, StringBody_escape c isBody⟩) ih
    | ok r =>
      rw [hr] at ih
      obtain ⟨rfl, body, hbody, isBody⟩ := ih
      refine ⟨rfl, '\\' :: c :: body, ?_, StringBody_escape c isBody⟩
      rw [hbody]
      rfl
  | case6 c cs hquote hfeed hend hescape ih =>
    have hc : c ∉ ['"', '\\', '\n'] := by
      simp only [List.mem_cons, List.not_mem_nil, or_false, not_or]
      exact ⟨hquote, not_backslash hend hescape, hfeed⟩
    cases hr : stringBody cs with
    | error f =>
      rw [hr] at ih
      exact Offends_string [c] (fun _ _ isBody => ⟨_, .plain hc isBody⟩) ih
    | ok r =>
      rw [hr] at ih
      obtain ⟨rfl, body, hbody, isBody⟩ := ih
      refine ⟨rfl, c :: body, ?_, .plain hc isBody⟩
      rw [hbody]
      rfl

/-! ### Numbers, words and operators -/

theorem number_sound (c : Char) (cs : List Char) (hc : Text.isDigit c) :
    (number (c :: cs)).Sound (c :: cs) := by
  have hsplit : (c :: cs).takeWhile Text.isDigit ++ (c :: cs).dropWhile Text.isDigit = c :: cs :=
    List.takeWhile_append_dropWhile
  have hdigits : ∀ d ∈ (c :: cs).takeWhile Text.isDigit, Text.isDigit d :=
    fun d hd => List.mem_takeWhile_imp hd
  have hne : (c :: cs).takeWhile Text.isDigit ≠ [] := by simp [hc]
  rw [number]
  split
  · next d rest hrest =>
    split
    · next hd =>
      refine ⟨?_, .float hne hdigits (by simp [hd]) fun e he => List.mem_takeWhile_imp he⟩
      rw [List.append_assoc, List.cons_append, List.takeWhile_append_dropWhile, ← hrest, hsplit]
    · exact ⟨by rw [← hrest, hsplit], .int hne hdigits⟩
  · exact ⟨hsplit.symm, .int hne hdigits⟩

theorem isWordChar_of_isWordStart (h : isWordStart c) : Text.isWordChar c := by
  simp only [isWordStart, Bool.or_eq_true] at h
  rcases h with h | h <;> simp [Text.isWordChar, Text.isAlphanumeric, h]

theorem wordKind_sound (cs : List Char) (hstart : ∃ c ∈ cs.head?, isWordStart c)
    (hchars : ∀ c ∈ cs, Text.isWordChar c) :
    Lexeme (wordKind (String.ofList cs)) (String.ofList cs) cs := by
  cases hk : keywords.lookup (String.ofList cs) with
  | some kind =>
    obtain ⟨front, back, hsplit, -⟩ := List.lookup_eq_some_iff.mp hk
    have hmem : (String.ofList cs, kind) ∈ keywords := by simp [hsplit]
    have htable : ∀ row ∈ keywords, row.2.fixedText? = some row.1 := by decide
    have hlex : Lexeme kind (String.ofList cs) (String.ofList cs).toList :=
      .fixed (htable _ hmem)
    rw [wordKind, hk]
    simpa using hlex
  | none =>
    rw [wordKind, hk]
    refine .name ⟨hstart, hchars, ?_⟩
    intro hmem
    obtain ⟨row, hrow, heq⟩ := List.mem_map.mp hmem
    have hne := List.lookup_eq_none_iff.mp hk row hrow
    simp [heq] at hne

theorem word_sound (c : Char) (cs : List Char) (hc : isWordStart c) :
    (word (c :: cs)).Sound (c :: cs) := by
  have hc' := isWordChar_of_isWordStart hc
  refine ⟨List.takeWhile_append_dropWhile.symm, wordKind_sound _ ?_ ?_⟩
  · exact ⟨c, by simp [hc'], hc⟩
  · exact fun d hd => List.mem_takeWhile_imp hd

theorem pairKind?_fixedText {d : Char} {kind : TokenKind} (h : pairKind? c d = some kind) :
    kind.fixedText? = some (String.ofList [c, d]) := by
  rw [pairKind?.eq_def] at h
  split at h <;> cases h <;> rfl

theorem singleKind?_fixedText {kind : TokenKind} (h : singleKind? c = some kind) :
    kind.fixedText? = some (String.ofList [c]) := by
  rw [singleKind?.eq_def] at h
  split at h <;> cases h <;> rfl

theorem operator?_some {scan : Scan} (h : operator? cs = some scan) : scan.Sound cs := by
  -- both ways to read one character end alike
  have single : ∀ (c : Char) (rest : List Char),
      (singleKind? c).map (fun k => token k (String.ofList [c]) [c] rest) = some scan →
        scan.Sound (c :: rest) := by
    intro c rest h
    obtain ⟨kind, hkind, rfl⟩ := Option.map_eq_some_iff.mp h
    refine ⟨rfl, ?_⟩
    simpa using Lexeme.fixed (singleKind?_fixedText hkind)
  fun_cases operator? cs with
  | case1 => simp [operator?] at h
  | case2 c => exact single c [] h
  | case3 c d rest kind hkind =>
    rw [operator?, hkind, Option.some.injEq] at h
    subst h
    refine ⟨rfl, ?_⟩
    simpa using Lexeme.fixed (pairKind?_fixedText hkind)
  | case4 c d rest hkind =>
    rw [operator?, hkind] at h
    exact single c (d :: rest) h

theorem operator?_none (h : operator? (c :: cs) = none) :
    singleKind? c = none ∧ ∀ d ∈ cs.head?, pairKind? c d = none := by
  cases cs with
  | nil => exact ⟨by simpa [operator?] using h, by simp⟩
  | cons d rest =>
    cases hpair : pairKind? c d with
    | some kind => simp [operator?, hpair] at h
    | none => exact ⟨by simpa [operator?, hpair] using h, by simpa using hpair⟩

theorem Offends_unexpected (hlayout : c ∉ layoutChars) (hquote : c ≠ '"')
    (hop : operator? (c :: cs) = none) (hdigit : ¬ Text.isDigit c) (hword : ¬ isWordStart c) :
    Offends (.unexpected c) (c :: cs) := by
  obtain ⟨hsingle, hpair⟩ := operator?_none hop
  refine .unexpected hlayout ?_ ?_ (by simpa using hdigit) (by simpa using hword)
  · intro hmark
    have hall : markChars.all fun d => d == '"' || (singleKind? d).isSome := by decide
    rcases Bool.or_eq_true_iff.mp (List.all_eq_true.mp hall c hmark) with h | h
    · exact hquote (eq_of_beq h)
    · simp [hsingle] at h
  · rintro rfl heq
    have h := hpair '=' (by simp [heq])
    simp [pairKind?] at h

theorem literal_sound (hlayout : c ∉ layoutChars) (hop : operator? (c :: cs) = none) :
    (literal (c :: cs)).Sound (c :: cs) := by
  rw [literal.eq_def]
  split
  · next h => exact absurd h (by simp)
  · next cs' h =>
    obtain ⟨rfl, rfl⟩ := List.cons.inj h
    have hbody := stringBody_sound cs
    split
    · next value taken rest hr =>
      rw [hr] at hbody
      obtain ⟨hcs, body, rfl, isBody⟩ := hbody
      exact ⟨by rw [hcs]; rfl, .string isBody⟩
    · next f hr =>
      rw [hr] at hbody
      exact hbody
  · next c' cs' hquote h =>
    obtain ⟨rfl, rfl⟩ := List.cons.inj h
    split
    · next hdigit => exact number_sound c cs hdigit
    · next hdigit =>
      split
      · next hword => exact word_sound c cs hword
      · next hword =>
        exact Offends_unexpected hlayout (fun h => hquote h) hop hdigit hword

/-! ### The front of a text -/

theorem mem_layoutChars : c ∈ layoutChars ↔ isLayout c := by
  simp [layoutChars, isLayout, or_assoc]

theorem lineComment_sound (cs : List Char) :
    Sound ('/' :: '/' :: cs)
      (gap ('/' :: '/' :: cs.takeWhile (· != '\n')) (cs.dropWhile (· != '\n'))) := by
  refine ⟨by simp, .lineComment ?_ ?_⟩
  · intro hmem
    simpa using List.mem_takeWhile_imp hmem
  · intro c hc
    have hstop := List.head?_dropWhile_not (fun d => d != '\n') cs
    rw [Option.mem_def.mp hc] at hstop
    simpa using hstop

/-- What a scan of a nonempty text finds at its front. -/
theorem next_sound (c : Char) (cs : List Char) : (next (c :: cs)).Sound (c :: cs) := by
  generalize htext : c :: cs = text
  fun_cases next text with
  | case1 => simp at htext
  | case2 cs' taken rest h =>
    obtain ⟨rfl, body, rfl, hbody⟩ := commentBody?_some h
    exact ⟨rfl, .blockComment hbody⟩
  | case3 cs' h => exact .openComment (commentBody?_none h)
  | case4 cs' => exact lineComment_sound cs'
  | case5 c' cs' _ _ hlayout => exact ⟨rfl, .layout (mem_layoutChars.mpr hlayout)⟩
  | case6 c' cs' _ _ hlayout =>
    cases hop : operator? (c' :: cs') with
    | some scan => exact operator?_some hop
    | none => exact literal_sound (fun h => hlayout (mem_layoutChars.mp h)) hop

end Scan

end Owl
