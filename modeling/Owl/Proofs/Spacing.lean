/-
Words with separators between them.

Whatever well-formed words are written with separators between them, reading the
text gives these words back.  The scanner has to stop at the right character of
each word, and to take each word and each separator for what it is.
-/
import Owl.Proofs.ReadBack.Lexing

namespace Owl

variable {rest cs : List Char} {text : String}

/-! ### Words -/

/-- A kind of token and a text that tokens of this kind can have. -/
inductive WellFormed : TokenKind → String → Prop
  | fixed {kind : TokenKind} {text : String} (h : kind.fixedText? = some text) :
      WellFormed kind text
  | name {text : String} (isName : IsName text.toList) : WellFormed .ident text
  | int {text : String} (nonempty : text.toList ≠ [])
      (digits : ∀ c ∈ text.toList, Text.isDigit c) : WellFormed .int text
  | float {text : String} {whole places : List Char} (h : text.toList = whole ++ '.' :: places)
      (nonempty : whole ≠ []) (digits : ∀ c ∈ whole, Text.isDigit c)
      (nonempty' : places ≠ []) (digits' : ∀ c ∈ places, Text.isDigit c) : WellFormed .float text
  | string {text : String} : WellFormed .string text

def writeChar : Char → List Char
  | '\\' => ['\\', '\\']
  | '"' => ['\\', '"']
  | '\n' => ['\\', 'n']
  | c => [c]

/-- How a word is written: strings in quotes, all others as they are. -/
def writeWord : TokenKind → String → List Char
  | .string, text => '"' :: (text.toList.flatMap writeChar ++ ['"'])
  | _, text => text.toList

theorem stringBody_writeChar (value : List Char) :
    StringBody (value.flatMap writeChar) value := by
  induction value with
  | nil => exact .nil
  | cons c value ih =>
    rw [List.flatMap_cons]
    fun_cases writeChar c with
    | case1 => exact .kept (by decide) ih
    | case2 => exact .kept (by decide) ih
    | case3 => exact .lineFeed ih
    | case4 _ hescape hquote hfeed =>
      refine .plain ?_ ih
      simp only [List.mem_cons, List.not_mem_nil, or_false, not_or]
      exact ⟨hquote, hescape, hfeed⟩

theorem WellFormed.lexeme {kind : TokenKind} (h : WellFormed kind text) :
    Lexeme kind text (writeWord kind text) := by
  cases h with
  | fixed h =>
    have hkind : kind = .string → False := by
      rintro rfl
      simp [TokenKind.fixedText?] at h
    rw [writeWord.eq_2 kind text hkind]
    exact .fixed h
  | name isName =>
    have hlexeme := Lexeme.name isName
    rw [String.ofList_toList] at hlexeme
    exact hlexeme
  | int nonempty digits =>
    have hlexeme := Lexeme.int nonempty digits
    rw [String.ofList_toList] at hlexeme
    exact hlexeme
  | float h nonempty digits nonempty' digits' =>
    have hlexeme := Lexeme.float nonempty digits nonempty' digits'
    rw [← h, String.ofList_toList] at hlexeme
    exact hlexeme
  | string =>
    have hlexeme := Lexeme.string (stringBody_writeChar text.toList)
    rw [String.ofList_toList] at hlexeme
    exact hlexeme

/-! ### Lexemes in front of layout -/

/-- The text is at its end, or goes on with a layout character. -/
def StartsApart (rest : List Char) : Prop := ∀ c ∈ rest.head?, c ∈ layoutChars

theorem StartsApart.closes (h : StartsApart rest) : Closes rest := by
  cases rest with
  | nil => exact .nil
  | cons c rest =>
    have hc : c ∈ layoutChars := h c rfl
    exact .cons (List.mem_append_left _ hc) rest

namespace Scan

def signKind? : List Char → Option TokenKind
  | [c] => singleKind? c
  | [c, d] => pairKind? c d
  | _ => none

theorem fixedText?_cases (kind : TokenKind) : ∀ text ∈ kind.fixedText?,
    (text, kind) ∈ keywords ∨ signKind? text.toList = some kind := by
  cases kind <;> decide

theorem next_keyword {kind : TokenKind} (h : (text, kind) ∈ keywords) (hrest : Closes rest) :
    next (text.toList ++ rest) = .token kind text text.toList rest := by
  have hall : keywords.all fun row => row.1.toList.head?.any isWordStart &&
      row.1.toList.all Text.isWordChar && wordKind row.1 == row.2 := by decide
  have hrow := List.all_eq_true.mp hall _ h
  simp only [Bool.and_eq_true, beq_iff_eq, List.all_eq_true, Option.any_eq_true] at hrow
  obtain ⟨⟨hstart, hchars⟩, hkind⟩ := hrow
  rw [next_word hstart hchars hrest, String.ofList_toList, hkind]

theorem next_pair {c d : Char} {kind : TokenKind} (hkind : pairKind? c d = some kind)
    (rest : List Char) :
    next (c :: d :: rest) = .token kind (String.ofList [c, d]) [c, d] rest := by
  have hc : c ≠ '/' ∧ isLayout c = false := by
    fun_cases pairKind? c d <;> simp_all [pairKind?] <;> decide
  rw [next_eq hc.1, hc.2, if_neg (by decide), operator?, hkind]
  rfl

/-- One character is read as such where none follows that could make a pair or a comment of it. -/
theorem next_single {c : Char} {kind : TokenKind} (hkind : singleKind? c = some kind)
    (hrest : StartsApart rest) : next (c :: rest) = .token kind (String.ofList [c]) [c] rest := by
  have hc : isLayout c = false := by
    fun_cases singleKind? c <;> simp_all [singleKind?] <;> decide
  have hop : operator? (c :: rest) = some (.token kind (String.ofList [c]) [c] rest) := by
    cases rest with
    | nil => simp [operator?, hkind]
    | cons d rest =>
      have hd : d ∈ layoutChars := hrest d rfl
      have hpair : pairKind? c d = none := by
        fun_cases pairKind? c d <;> simp_all [layoutChars]
      simp [operator?, hpair, hkind]
  rw [next.eq_def]
  split
  · next h => simp at h
  · next cs h =>
    obtain ⟨-, rfl⟩ := List.cons.inj h
    exact absurd (hrest '*' rfl) (by decide)
  · next cs _ h =>
    obtain ⟨-, rfl⟩ := List.cons.inj h
    exact absurd (hrest '/' rfl) (by decide)
  · next c' cs _ _ h =>
    obtain ⟨rfl, rfl⟩ := List.cons.inj h
    rw [hc, if_neg (by decide), hop, Option.getD_some]

theorem next_fixed {kind : TokenKind} (h : kind.fixedText? = some text) (hrest : StartsApart rest) :
    next (text.toList ++ rest) = .token kind text text.toList rest := by
  rcases fixedText?_cases kind text h with hkeyword | hsign
  · exact next_keyword hkeyword hrest.closes
  · rw [← String.ofList_toList (s := text)] at hsign ⊢
    simp only [String.toList_ofList] at hsign ⊢
    generalize text.toList = cs at hsign ⊢
    fun_cases signKind? cs with
    | case1 c => exact next_single hsign hrest
    | case2 c d => exact next_pair hsign rest
    | case3 => simp_all [signKind?]

theorem next_float {whole places : List Char} (hne : whole ≠ [])
    (hwhole : ∀ c ∈ whole, Text.isDigit c) (hne' : places ≠ [])
    (hplaces : ∀ c ∈ places, Text.isDigit c) (hrest : Closes rest) :
    next (whole ++ '.' :: places ++ rest) =
      .token .float (String.ofList (whole ++ '.' :: places)) (whole ++ '.' :: places) rest := by
  have hpoint : ∀ c ∈ ('.' :: (places ++ rest)).head?, Text.isDigit c = false := by
    simp; decide
  have htake := takeWhile_front hwhole hpoint
  have hdrop := dropWhile_front hwhole hpoint
  obtain ⟨d, more, rfl⟩ := List.exists_cons_of_ne_nil hne'
  have hd := hplaces d (List.mem_cons_self ..)
  have hnumber : number (whole ++ '.' :: (d :: more ++ rest)) =
      .token .float (String.ofList (whole ++ '.' :: d :: more)) (whole ++ '.' :: d :: more)
        rest := by
    have htake' := takeWhile_front hplaces hrest.noDigit
    have hdrop' := dropWhile_front hplaces hrest.noDigit
    rw [List.cons_append] at htake hdrop htake' hdrop' ⊢
    rw [number, htake, hdrop]
    simp [hd, htake', hdrop']
  obtain ⟨c, cs, rfl⟩ := List.exists_cons_of_ne_nil hne
  rw [List.append_assoc, List.cons_append, List.cons_append,
    next_digit (hwhole c (List.mem_cons_self ..)), ← List.cons_append, hnumber]

/-- A lexeme in front of a layout character, or at the end, is scanned as its token. -/
theorem next_lexeme {kind : TokenKind} (h : Lexeme kind text cs) (hrest : StartsApart rest) :
    next (cs ++ rest) = .token kind text cs rest := by
  cases h with
  | fixed h => exact next_fixed h hrest
  | name isName => exact next_name isName hrest.closes
  | int nonempty digits => exact next_int nonempty digits hrest.closes
  | float nonempty digits nonempty' digits' =>
    exact next_float nonempty digits nonempty' digits' hrest.closes
  | string isBody =>
    have hscan := next_string isBody rest
    rw [List.cons_append, List.append_assoc]
    exact hscan

/-! ### Separators -/

theorem commentBody?_of_body {body : List Char} (h : ¬ ['*', '/'] <:+: body) (rest : List Char) :
    commentBody? (body ++ '*' :: '/' :: rest) = some (body ++ ['*', '/'], rest) := by
  induction body with
  | nil => rfl
  | cons c body ih =>
    rw [List.infix_cons_iff, not_or] at h
    have hmore := ih h.2
    rw [List.cons_append, commentBody?, hmore]
    · rfl
    · -- the end mark cannot start in the last character of the body and end behind it
      rintro more rfl hbody
      cases body with
      | nil => simp at hbody
      | cons d body =>
        obtain ⟨rfl, -⟩ := List.cons.inj hbody
        exact h.1 ⟨body, rfl⟩

end Scan

/-- Layout characters and complete comments: those to the end of a line with the line feed that
ends it, the others with their first end mark. -/
inductive IsSpacing : List Char → Prop
  | nil : IsSpacing []
  | layout {c : Char} {cs : List Char} (mem : c ∈ layoutChars) (more : IsSpacing cs) :
      IsSpacing (c :: cs)
  | lineComment {body cs : List Char} (inLine : '\n' ∉ body) (more : IsSpacing cs) :
      IsSpacing ('/' :: '/' :: (body ++ '\n' :: cs))
  | blockComment {body cs : List Char} (first : ¬ ['*', '/'] <:+: body) (more : IsSpacing cs) :
      IsSpacing ('/' :: '*' :: '*' :: (body ++ '*' :: '/' :: cs))

/-- What separates two words whatever they are: it starts with a layout character. -/
structure IsSeparator (cs : List Char) : Prop where
  isSpacing : IsSpacing cs
  start : ∃ c ∈ cs.head?, c ∈ layoutChars

theorem IsSeparator.startsApart (h : IsSeparator cs) (rest : List Char) :
    StartsApart (cs ++ rest) := by
  obtain ⟨c, hhead, hc⟩ := h.start
  intro d hd
  rw [List.head?_append, hhead, Option.some_or] at hd
  obtain rfl : c = d := Option.some.inj hd
  exact hc

/-- Layout characters and comments are passed over. -/
theorem Lexes.spacing {gap : List Char} {ts : List Token} (h : IsSpacing gap)
    (more : Lexes cs ts rest) : Lexes (gap ++ cs) ts rest := by
  induction h with
  | nil => exact more
  | @layout c gap mem _ ih =>
    have hlayout : Scan.isLayout c := Scan.mem_layoutChars.mp mem
    have hslash : c ≠ '/' := by
      rintro rfl
      exact absurd mem (by decide)
    have hscan : Scan.next (c :: (gap ++ cs)) = .gap [c] (gap ++ cs) := by
      rw [Scan.next_eq hslash, if_pos hlayout]
    exact .gap hscan ih
  | @lineComment body gap inLine _ ih =>
    have hfeed : Scan.next ('\n' :: (gap ++ cs)) = .gap ['\n'] (gap ++ cs) := by
      rfl
    have hbody : ∀ c ∈ body, (c != '\n') = true := by
      intro c hc
      rw [bne_iff_ne]
      rintro rfl
      exact inLine hc
    have hend : ∀ c ∈ ('\n' :: (gap ++ cs)).head?, (c != '\n') = false := by simp
    have hscan : Scan.next ('/' :: '/' :: (body ++ '\n' :: (gap ++ cs))) =
        .gap ('/' :: '/' :: body) ('\n' :: (gap ++ cs)) := by
      rw [Scan.next, Scan.takeWhile_front hbody hend, Scan.dropWhile_front hbody hend]
    simp only [List.cons_append, List.append_assoc]
    exact .gap hscan (.gap hfeed ih)
  | @blockComment body gap first _ ih =>
    have hscan : Scan.next ('/' :: '*' :: '*' :: (body ++ '*' :: '/' :: (gap ++ cs))) =
        .gap ('/' :: '*' :: '*' :: (body ++ ['*', '/'])) (gap ++ cs) := by
      rw [Scan.next, Scan.commentBody?_of_body first]
    simp only [List.cons_append, List.append_assoc]
    exact .gap hscan ih

/-! ### Texts that spell words -/

/-- `Spells words text`: the text is made of the words, in order, with a separator between any two.
Behind the last word there may be a separator. -/
inductive Spells : List (TokenKind × String) → List Char → Prop
  | nil : Spells [] []
  | last {kind : TokenKind} {text : String} : Spells [(kind, text)] (writeWord kind text)
  | cons {kind : TokenKind} {text : String} {separator cs : List Char}
      {words : List (TokenKind × String)} (isSeparator : IsSeparator separator)
      (more : Spells words cs) :
      Spells ((kind, text) :: words) (writeWord kind text ++ separator ++ cs)

theorem Spells.lexes {words : List (TokenKind × String)} (h : Spells words cs)
    (hwords : ∀ w ∈ words, WellFormed w.1 w.2) :
    Lexes cs (words.map fun w => .bare w.1 w.2) [] := by
  induction h with
  | nil => exact .nil
  | @last kind text =>
    have hword : WellFormed kind text := hwords (kind, text) (List.mem_singleton_self _)
    have hend : StartsApart [] := by simp [StartsApart]
    have hscan := Scan.next_lexeme hword.lexeme hend
    rw [List.append_nil] at hscan
    exact .token hscan .nil
  | @cons kind text separator cs words isSeparator _ ih =>
    have hword : WellFormed kind text := hwords (kind, text) (List.mem_cons_self ..)
    have hmore := ih fun w hw => hwords w (List.mem_cons_of_mem _ hw)
    have hscan := Scan.next_lexeme hword.lexeme (isSeparator.startsApart cs)
    rw [List.append_assoc, List.map_cons]
    exact .token hscan (.spacing isSeparator.isSpacing hmore)

/-- **Every well-formed sequence of words is read.**  A text that spells well-formed words, possibly
behind some spacing, is read into tokens of just these kinds and texts, and the end mark. -/
theorem tokenize_spells {lead cs : List Char} {words : List (TokenKind × String)}
    (hlead : IsSpacing lead) (hspells : Spells words cs)
    (hwords : ∀ w ∈ words, WellFormed w.1 w.2) :
    ∃ tokens, tokenize (String.ofList (lead ++ cs)) = .ok tokens ∧
      tokens.map (fun t => (t.kind, t.text)) = words ++ [(.eof, "")] := by
  have hlexes := Lexes.spacing hlead (hspells.lexes hwords)
  obtain ⟨tokens, htokens, hstrip⟩ := hlexes.tokenize
  refine ⟨tokens, htokens, ?_⟩
  have hpairs := congrArg (List.map fun t => (t.kind, t.text)) hstrip
  simpa [Function.comp_def, Token.strip, Token.bare] using hpairs

/-- A quotient of a number and a string with escapes, with comments around its sign. -/
theorem tokenize_spells_quotient :
    ∃ tokens, tokenize (String.ofList ("// half\n".toList ++
        "6 /\t/** of * */ \"a\\\"\\n\\\\\" ".toList)) = .ok tokens ∧
      tokens.map (fun t => (t.kind, t.text)) =
        [(.int, "6"), (.slash, "/"), (.string, "a\"\n\\")] ++ [(.eof, "")] := by
  have hlead : IsSpacing ('/' :: '/' :: (" half".toList ++ ['\n'])) :=
    .lineComment (by decide) .nil
  have htext : "6 /\t/** of * */ \"a\\\"\\n\\\\\" ".toList =
      writeWord .int "6" ++ " ".toList ++ (writeWord .slash "/" ++ "\t/** of * */ ".toList ++
        (writeWord .string "a\"\n\\" ++ " ".toList ++ [])) := by decide
  have hblank : IsSeparator " ".toList := ⟨.layout (by decide) .nil, ' ', rfl, by decide⟩
  have hcomment : IsSeparator
      ('\t' :: '/' :: '*' :: '*' :: (" of * ".toList ++ '*' :: '/' :: " ".toList)) :=
    ⟨.layout (by decide) (.blockComment (by decide) hblank.isSpacing), '\t', rfl, by decide⟩
  refine tokenize_spells hlead ?_ ?_
  · rw [htext]
    exact .cons hblank (.cons hcomment (.cons hblank .nil))
  · simp only [List.mem_cons, List.not_mem_nil, or_false]
    rintro w (rfl | rfl | rfl)
    · exact .int (by decide) (List.all_eq_true.mp (by decide))
    · exact .fixed rfl
    · exact .string

end Owl
