/-
The code of plain expressions, scanned.

* `tokenize_of_lexes` — what scans find are the tokens of the code as a text.
-/
import Owl.Proofs.Layout.Parsing
import Owl.Proofs.ReadBack.Spelling

namespace Owl

variable {c : Char} {rest cs value : List Char} {ts : List Token}

/-! ### Letters and digits -/

namespace Text

/-- Whether no range of one list meets a range of another, where both are in rising order.  Ranges
of the second list that are below one of the first are below all that follow it. -/
def apart : List (Nat × Nat) → List (Nat × Nat) → Bool
  | [], _ => true
  | a :: as, bs =>
    let higher := bs.dropWhile fun b => b.2.blt a.1
    (higher.head?.all fun b => a.2.blt b.1) && apart as higher

theorem lt_or_lt_of_apart {as bs : List (Nat × Nat)} (has : as.Pairwise fun a b => a.1 ≤ b.1)
    (hbs : bs.Pairwise fun a b => a.1 ≤ b.1) (h : apart as bs) {a b : Nat × Nat} (ha : a ∈ as)
    (hb : b ∈ bs) : a.2 < b.1 ∨ b.2 < a.1 := by
  induction as generalizing bs with
  | nil => cases ha
  | cons first as ih =>
    obtain ⟨hfirst, has⟩ := List.pairwise_cons.mp has
    rw [apart, Bool.and_eq_true] at h
    have hsplit := List.takeWhile_append_dropWhile (p := fun b => b.2.blt first.1) (l := bs)
    generalize bs.dropWhile (fun b => b.2.blt first.1) = higher at h hsplit
    rw [← hsplit] at hb hbs
    obtain ⟨-, hhigher, -⟩ := List.pairwise_append.mp hbs
    rcases List.mem_append.mp hb with hlower | hrest
    · have hlow : b.2 < first.1 := by simpa using List.mem_takeWhile_imp hlower
      rcases List.mem_cons.mp ha with rfl | ha
      · exact .inr hlow
      · exact .inr (Nat.lt_of_lt_of_le hlow (hfirst a ha))
    · rcases List.mem_cons.mp ha with rfl | ha
      · obtain ⟨next, more, rfl⟩ := List.exists_cons_of_ne_nil (List.ne_nil_of_mem hrest)
        have hnext : a.2 < next.1 := by simpa using h.1
        rcases List.mem_cons.mp hrest with rfl | hmore
        · exact .inl hnext
        · exact .inl (Nat.lt_of_lt_of_le hnext ((List.pairwise_cons.mp hhigher).1 b hmore))
      · exact ih has hhigher h.2 ha hrest

theorem inRanges_of_apart {as bs : List (Nat × Nat)} {n : Nat}
    (has : as.IsChain fun a b => a.1 ≤ b.1) (hbs : bs.IsChain fun a b => a.1 ≤ b.1)
    (h : apart as bs) (ha : inRanges as n) : inRanges bs n = false := by
  simp only [inRanges, List.any_eq_true, Bool.and_eq_true, decide_eq_true_eq] at ha
  obtain ⟨a, hmem, hlow, hhigh⟩ := ha
  simp only [inRanges, List.any_eq_false, Bool.and_eq_true, decide_eq_true_eq]
  rintro b hb ⟨hlow', hhigh'⟩
  have := lt_or_lt_of_apart has.pairwise hbs.pairwise h hmem hb
  omega

theorem not_digitRanges_of_letterRanges {n : Nat} (h : inRanges letterRanges n) :
    inRanges digitRanges n = false :=
  inRanges_of_apart (by decide +kernel) (by decide +kernel) (by decide +kernel) h

theorem toNat_of_isDigit : c.isDigit → 48 ≤ c.toNat ∧ c.toNat ≤ 57 := by
  simp [Char.isDigit, UInt32.le_iff_toNat_le]

theorem toNat_of_isAlpha (h : c.isAlpha) : 65 ≤ c.toNat ∧ c.toNat ≤ 122 := by
  rcases Bool.or_eq_true_iff.mp h with hupper | hlower
  · have hrange : 'A'.val ≤ c.val ∧ c.val ≤ 'Z'.val := of_decide_eq_true hupper
    have hlow : 65 ≤ c.toNat := UInt32.le_iff_toNat_le.mp hrange.1
    have hhigh : c.toNat ≤ 90 := UInt32.le_iff_toNat_le.mp hrange.2
    omega
  · obtain ⟨hge, hle⟩ := Bool.and_eq_true_iff.mp hlower
    have hlow : 97 ≤ c.toNat := UInt32.le_iff_toNat_le.mp (of_decide_eq_true hge)
    have hhigh : c.toNat ≤ 122 := UInt32.le_iff_toNat_le.mp (of_decide_eq_true hle)
    omega

theorem isDigit_of_isLetter (h : isLetter c) : isDigit c = false := by
  simp only [isLetter, Bool.or_eq_true, Bool.and_eq_true, decide_eq_true_eq] at h
  simp only [isDigit, Bool.or_eq_false_iff, Bool.and_eq_false_iff, decide_eq_false_iff_not]
  rcases h with h | ⟨hhigh, hletter⟩
  · have := toNat_of_isAlpha h
    refine ⟨?_, .inl (by omega)⟩
    by_contra hd
    have := toNat_of_isDigit (by simpa using hd)
    omega
  · refine ⟨?_, .inr (not_digitRanges_of_letterRanges hletter)⟩
    by_contra hd
    have := toNat_of_isDigit (by simpa using hd)
    omega

end Text

theorem Scan.isDigit_of_isWordStart (h : isWordStart c) : Text.isDigit c = false := by
  rcases Bool.or_eq_true_iff.mp h with h | h
  · exact Text.isDigit_of_isLetter h
  · rw [eq_of_beq h]
    decide

/-! ### What may follow a lexeme -/

/-- A text that continues no name and no number in front of it. -/
structure Closes (rest : List Char) : Prop where
  noWord : ∀ c ∈ rest.head?, Text.isWordChar c = false
  noDigit : ∀ c ∈ rest.head?, Text.isDigit c = false
  noPlaces : ∀ d more, rest = '.' :: d :: more → Text.isDigit d = false

theorem Closes.nil : Closes [] := ⟨by simp, by simp, by simp⟩

theorem Closes.cons {c : Char} (hc : c ∈ layoutChars ++ ['(', ')', ']', ',']) (rest : List Char) :
    Closes (c :: rest) := by
  have hall : (layoutChars ++ ['(', ')', ']', ',']).all fun d =>
      !Text.isWordChar d && !Text.isDigit d && d != '.' := by decide
  have hnot := List.all_eq_true.mp hall c hc
  simp only [Bool.and_eq_true, Bool.not_eq_true', bne_iff_ne] at hnot
  obtain ⟨⟨hword, hdigit⟩, hdot⟩ := hnot
  exact ⟨by simpa using hword, by simpa using hdigit, by simp [hdot]⟩

theorem IsName.exists_cons {name : List Char} (h : IsName name) :
    ∃ c cs, name = c :: cs ∧ Scan.isWordStart c := by
  obtain ⟨c, hc, hstart⟩ := h.start
  cases name with
  | nil => simp at hc
  | cons d cs => exact ⟨d, cs, rfl, by rwa [Option.some.inj hc]⟩

theorem Closes.field {field : List Char} (h : IsName field) (rest : List Char) :
    Closes ('.' :: (field ++ rest)) := by
  obtain ⟨c, cs, rfl, hstart⟩ := h.exists_cons
  refine ⟨by simp; decide, by simp; decide, ?_⟩
  rintro d more heq
  obtain ⟨rfl, -⟩ := List.cons.inj (List.cons.inj heq).2
  exact Scan.isDigit_of_isWordStart hstart

/-! ### Single scans -/

namespace Scan

theorem next_eq (h : c ≠ '/') (cs : List Char) :
    next (c :: cs) =
      if isLayout c then .gap [c] cs else (operator? (c :: cs)).getD (literal (c :: cs)) := by
  rw [next] <;> simp [h]

theorem next_space (cs : List Char) : next (' ' :: cs) = .gap [' '] cs := by
  rfl

/-- A character that stands for itself whatever follows. -/
theorem next_mark {kind : TokenKind} (hc : c ∈ ['(', ')', '[', ']', ',', '.'])
    (hkind : singleKind? c = some kind) (cs : List Char) :
    next (c :: cs) = .token kind (String.ofList [c]) [c] cs := by
  have hall : ['(', ')', '[', ']', ',', '.'].all fun d =>
      d != '/' && !isLayout d && !(['-', '=', '!', '<', '>'].contains d) := by decide
  have hnot := List.all_eq_true.mp hall c hc
  simp only [Bool.and_eq_true, Bool.not_eq_true', bne_iff_ne] at hnot
  obtain ⟨⟨hslash, hlayout⟩, hpair⟩ := hnot
  rw [next_eq hslash, hlayout, if_neg (by decide)]
  cases cs with
  | nil => simp [operator?, hkind]
  | cons d cs =>
    have hnone : pairKind? c d = none := by
      fun_cases pairKind? c d <;> simp_all
    simp [operator?, hnone, hkind]

theorem next_minus {d : Char} (hd : d ≠ '>') (cs : List Char) :
    next ('-' :: d :: cs) = .token .minus "-" ['-'] (d :: cs) := by
  have hnone : pairKind? '-' d = none := by
    unfold pairKind?
    split <;> simp_all
  rw [next_eq (by decide), if_neg (by decide), operator?, hnone]
  rfl

/-- An operator in front of a blank. -/
theorem next_operator {op : String} (h : op ∈ binaryOps) (cs : List Char) :
    next (op.toList ++ ' ' :: cs) = .token (operatorKind op) op op.toList (' ' :: cs) := by
  simp only [binaryOps, List.mem_cons, List.not_mem_nil, or_false] at h
  rcases h with rfl | rfl | rfl | rfl | rfl | rfl | rfl | rfl | rfl | rfl | rfl <;> rfl

theorem next_of_no_mark (hc : c ∉ layoutChars ++ '!' :: markChars) (cs : List Char) :
    next (c :: cs) =
      if Text.isDigit c then number (c :: cs)
      else if isWordStart c then word (c :: cs)
      else .fault (.unexpected c) := by
  rw [List.mem_append, not_or] at hc
  obtain ⟨hlayout, hmark⟩ := hc
  have hsingle : singleKind? c = none := by
    rw [singleKind?.eq_def]
    split <;> first | rfl | exact absurd (by decide) hmark
  have hpair : ∀ d, pairKind? c d = none := by
    intro d
    rw [pairKind?.eq_def]
    split <;> first | rfl | exact absurd (by decide) hmark
  have hnone : operator? (c :: cs) = none := by
    cases cs <;> simp [operator?, hsingle, hpair]
  rw [mem_layoutChars] at hlayout
  rw [next_eq (by rintro rfl; exact hmark (by decide)), if_neg hlayout, hnone, Option.getD_none,
    literal]
  rintro rfl
  exact hmark (by decide)

theorem takeWhile_front {p : Char → Bool} {front : List Char} (hfront : ∀ c ∈ front, p c)
    (hrest : ∀ c ∈ rest.head?, p c = false) : (front ++ rest).takeWhile p = front := by
  rw [List.takeWhile_append_of_pos hfront]
  cases rest with
  | nil => simp
  | cons c rest => simp [hrest c (by simp)]

theorem dropWhile_front {p : Char → Bool} {front : List Char} (hfront : ∀ c ∈ front, p c)
    (hrest : ∀ c ∈ rest.head?, p c = false) : (front ++ rest).dropWhile p = rest := by
  rw [List.dropWhile_append_of_pos hfront]
  cases rest with
  | nil => simp
  | cons c rest => simp [hrest c (by simp)]

theorem wordKind_name {name : List Char} (h : IsName name) :
    wordKind (String.ofList name) = .ident := by
  have hlookup : keywords.lookup (String.ofList name) = none := by
    rw [List.lookup_eq_none_iff]
    intro row hrow
    rw [bne_iff_ne]
    rintro heq
    exact h.unreserved (heq ▸ List.mem_map_of_mem hrow)
  rw [wordKind, hlookup]
  rfl

/-- A word is taken as a whole. -/
theorem next_word (hstart : ∃ c ∈ cs.head?, isWordStart c) (hchars : ∀ c ∈ cs, Text.isWordChar c)
    (hrest : Closes rest) :
    next (cs ++ rest) =
      .token (wordKind (String.ofList cs)) (String.ofList cs) cs rest := by
  obtain ⟨c, hhead, hc⟩ := hstart
  obtain ⟨tail, rfl⟩ : ∃ tail, cs = c :: tail := by
    cases cs with
    | nil => simp at hhead
    | cons d tail => exact ⟨tail, by rw [Option.some.inj hhead]⟩
  have hall : (layoutChars ++ '!' :: markChars).all fun d => !isWordStart d := by decide
  have hnot : c ∉ layoutChars ++ '!' :: markChars := fun hmem => by
    simpa [hc] using List.all_eq_true.mp hall c hmem
  rw [List.cons_append, next_of_no_mark hnot, isDigit_of_isWordStart hc, if_neg (by decide),
    if_pos hc, word, ← List.cons_append, takeWhile_front hchars hrest.noWord,
    dropWhile_front hchars hrest.noWord]

theorem next_name {name : List Char} (h : IsName name) (hrest : Closes rest) :
    next (name ++ rest) = .token .ident (String.ofList name) name rest := by
  rw [next_word h.start h.chars hrest, wordKind_name h]

theorem number_int {digits : List Char} (hdigits : ∀ c ∈ digits, Text.isDigit c)
    (hrest : Closes rest) :
    number (digits ++ rest) = .token .int (String.ofList digits) digits rest := by
  rw [number, takeWhile_front hdigits hrest.noDigit, dropWhile_front hdigits hrest.noDigit]
  split
  · next _ d more => rw [hrest.noPlaces d more rfl, if_neg (by decide)]
  · rfl

theorem next_digit (hc : Text.isDigit c) (cs : List Char) : next (c :: cs) = number (c :: cs) := by
  have hall : (layoutChars ++ '!' :: markChars).all fun d => !Text.isDigit d := by decide
  have hnot : c ∉ layoutChars ++ '!' :: markChars := fun hmem => by
    simpa [hc] using List.all_eq_true.mp hall c hmem
  rw [next_of_no_mark hnot, if_pos hc]

theorem next_int {digits : List Char} (hne : digits ≠ []) (hdigits : ∀ c ∈ digits, Text.isDigit c)
    (hrest : Closes rest) :
    next (digits ++ rest) = .token .int (String.ofList digits) digits rest := by
  have hnumber := number_int hdigits hrest
  obtain ⟨c, cs, rfl⟩ := List.exists_cons_of_ne_nil hne
  rw [List.cons_append, next_digit (hdigits c (List.mem_cons_self ..)), ← List.cons_append, hnumber]

/-- The inside of a string is read up to its closing quote. -/
theorem stringBody_of_body {body : List Char} (h : StringBody body value) (rest : List Char) :
    stringBody (body ++ '"' :: rest) = .ok (value, body ++ ['"'], rest) := by
  induction h with
  | nil => rfl
  | @plain c body value ordinary _ ih =>
    simp only [List.mem_cons, List.not_mem_nil, or_false, not_or] at ordinary
    obtain ⟨hquote, hescape, hfeed⟩ := ordinary
    rw [List.cons_append, stringBody, ih]
    · rfl
    · exact fun h => hquote h
    · exact fun h => hfeed h
    · exact fun h _ => hescape h
    · exact fun _ _ h => absurd h hescape
  | lineFeed _ ih | tab _ ih | carriageReturn _ ih =>
    rw [List.cons_append, List.cons_append, stringBody, ih]
    rfl
  | @kept c body value other _ ih =>
    have hsame : unescape c = c := by
      fun_cases unescape c <;> simp_all
    rw [List.cons_append, List.cons_append, stringBody, ih]
    simp [bind, Except.bind, pure, Except.pure, hsame]

theorem next_string {body : List Char} (h : StringBody body value) (rest : List Char) :
    next ('"' :: (body ++ '"' :: rest)) =
      .token .string (String.ofList value) ('"' :: (body ++ ['"'])) rest := by
  rw [next_eq (by decide), if_neg (by decide)]
  have hnone : ∀ cs, operator? ('"' :: cs) = none := by
    intro cs
    cases cs <;> rfl
  rw [hnone, Option.getD_none, literal, stringBody_of_body h]

/-- A text within a line is the inside of a string when its quotes and backslashes are escaped. -/
theorem stringBody_stringCode (h : '\n' ∉ value) :
    StringBody (value.flatMap stringCode.escape) value := by
  induction value with
  | nil => exact .nil
  | cons c value ih =>
    rw [List.mem_cons, not_or] at h
    have hbody := ih h.2
    rw [List.flatMap_cons, stringCode.escape]
    split
    · next hescaped =>
      have hother : c ∉ ['n', 't', 'r'] := by
        rcases Bool.or_eq_true_iff.mp hescaped with h | h <;> rw [eq_of_beq h] <;> decide
      exact .kept hother hbody
    · next hplain =>
      simp only [Bool.or_eq_true, beq_iff_eq, not_or] at hplain
      refine .plain ?_ hbody
      simp only [List.mem_cons, List.not_mem_nil, or_false, not_or]
      exact ⟨hplain.2, hplain.1, fun h' => h.1 h'.symm⟩

end Scan

/-! ### Scans one after another -/

/-- `Lexes cs ts rest`: scans of the text `cs` find the tokens `ts`, here without their places, and
leave `rest`. -/
inductive Lexes : List Char → List Token → List Char → Prop
  | nil {cs : List Char} : Lexes cs [] cs
  | gap {cs taken mid rest : List Char} {ts : List Token} (scan : Scan.next cs = .gap taken mid)
      (more : Lexes mid ts rest) : Lexes cs ts rest
  | token {cs taken mid rest : List Char} {kind : TokenKind} {text : String} {ts : List Token}
      (scan : Scan.next cs = .token kind text taken mid) (more : Lexes mid ts rest) :
      Lexes cs (.bare kind text :: ts) rest

theorem Lexes.mark {kind : TokenKind} (hc : c ∈ ['(', ')', '[', ']', ',', '.'])
    (hkind : Scan.singleKind? c = some kind) (more : Lexes cs ts rest) :
    Lexes (c :: cs) (.mark kind :: ts) rest := by
  rw [Token.mark, Scan.singleKind?_fixedText hkind]
  exact .token (Scan.next_mark hc hkind cs) more

theorem Lexes.name {name : String} (h : IsName name.toList) (hcs : Closes cs)
    (more : Lexes cs ts rest) : Lexes (name.toList ++ cs) (.bare .ident name :: ts) rest := by
  have hscan := Scan.next_name h hcs
  rw [String.ofList_toList] at hscan
  exact .token hscan more

/-- Where scans come to the end of a text, they give its tokens. -/
theorem Lexes.ofChars (h : Lexes cs ts []) (fuel : Nat) (pos : Position)
    (hfuel : cs.length ≤ fuel) :
    (Lexed.ofChars fuel pos cs).error? = none ∧
      (Lexed.ofChars fuel pos cs).tokens.map Token.strip = ts ++ [Token.bare .eof ""] := by
  generalize hrest : ([] : List Char) = rest at h
  induction h generalizing fuel pos with
  | nil =>
    subst hrest
    cases fuel <;> exact ⟨rfl, rfl⟩
  | @gap cs taken mid rest ts scan more ih =>
    cases cs with
    | nil =>
      -- at the end of a text there is an empty gap, which is the same as no scan
      cases scan
      exact ih fuel pos hfuel hrest
    | cons c cs =>
      obtain ⟨fuel, rfl⟩ := Nat.exists_eq_add_one.mpr (Nat.zero_lt_of_lt hfuel)
      have hlength := Scan.length_gap scan
      rw [Lexed.ofChars, scan]
      exact ih fuel _ (hlength.trans (Nat.le_of_succ_le_succ hfuel)) hrest
  | @token cs taken mid rest kind text ts scan more ih =>
    cases cs with
    | nil => cases scan
    | cons c cs =>
      obtain ⟨fuel, rfl⟩ := Nat.exists_eq_add_one.mpr (Nat.zero_lt_of_lt hfuel)
      have hlength := Scan.length_token scan
      obtain ⟨herror, htokens⟩ :=
        ih fuel (pos.afterAll taken) (hlength.trans (Nat.le_of_succ_le_succ hfuel)) hrest
      rw [Lexed.ofChars, scan]
      exact ⟨herror, by rw [List.map_cons, htokens]; rfl⟩

/-- The tokens of a text that is scanned to its end, but for their places. -/
theorem Lexes.tokenize (h : Lexes cs ts []) :
    ∃ tokens, tokenize (String.ofList cs) = .ok tokens ∧
      tokens.map Token.strip = ts ++ [Token.bare .eof ""] := by
  obtain ⟨herror, htokens⟩ := h.ofChars cs.length .start (Nat.le_refl _)
  refine ⟨(lex (String.ofList cs)).tokens, ?_, ?_⟩
  · rw [Owl.tokenize, lex, String.toList_ofList, herror]
  · rwa [lex, String.toList_ofList]

/-- Wherever a text `cs` stands in front of one that closes it, scans find the tokens `ts` in it. -/
def LexesFront (cs : List Char) (ts : List Token) : Prop :=
  ∀ ⦃mid rest : List Char⦄ ⦃us : List Token⦄, Closes mid → Lexes mid us rest →
    Lexes (cs ++ mid) (ts ++ us) rest

/-! ### Plain expressions -/

theorem toDigits_of_nonneg {value : Int} (h : 0 ≤ value) :
    (toString value).toList = Nat.toDigits 10 value.toNat := by
  obtain ⟨n, rfl⟩ := Int.eq_ofNat_of_zero_le h
  exact Nat.toList_repr

theorem digits_of_nonneg {value : Int} (h : 0 ≤ value) :
    (toString value).toList ≠ [] ∧ ∀ c ∈ (toString value).toList, c.isDigit := by
  rw [toDigits_of_nonneg h]
  exact ⟨Nat.toDigits_ne_nil, fun c hc =>
    Nat.isDigit_of_mem_toDigits (Nat.succ_pos 9) (Nat.le_refl 10) hc⟩

theorem Expr.Plain.code_head {e : Expr} (h : e.Plain) : ∃ c cs, e.code = c :: cs ∧ c ≠ '>' := by
  induction h with
  | int nonneg =>
    obtain ⟨hne, hdigits⟩ := digits_of_nonneg nonneg
    obtain ⟨c, cs, hcode⟩ := List.exists_cons_of_ne_nil hne
    refine ⟨c, cs, hcode, ?_⟩
    rintro rfl
    exact absurd (hdigits '>' (by rw [hcode]; exact List.mem_cons_self ..)) (by decide)
  | string | binary | unary | list => exact ⟨_, _, rfl, by decide⟩
  | name isName =>
    obtain ⟨c, cs, hname, hstart⟩ := isName.exists_cons
    refine ⟨c, cs, hname, ?_⟩
    rintro rfl
    exact absurd hstart (by decide)
  | call _ _ _ ih | field _ _ ih =>
    obtain ⟨c, cs, hcode, hc⟩ := ih
    exact ⟨c, _, by rw [Expr.code, hcode, List.cons_append], hc⟩

theorem Closes.restCode (es : List Expr) {mid : List Char} (h : Closes mid) :
    Closes (restCode es ++ mid) := by
  cases es with
  | nil => exact h
  | cons e es =>
    exact .cons (by decide) _

theorem restCode_lexes {es : List Expr} (h : ∀ e ∈ es, LexesFront e.code e.tokens) :
    LexesFront (restCode es) (restTokens es) := by
  induction es with
  | nil => exact fun _ _ _ _ more => more
  | cons e es ih =>
    intro mid rest us hmid more
    have htail := ih (fun a ha => h a (List.mem_cons_of_mem _ ha)) hmid more
    have hhead := h e (List.mem_cons_self ..) (hmid.restCode es) htail
    refine .mark (by decide) rfl (.gap (Scan.next_space _) ?_)
    simpa using hhead

theorem listCode_lexes {es : List Expr} (h : ∀ e ∈ es, LexesFront e.code e.tokens) :
    LexesFront (listCode es) (listTokens es) := by
  cases es with
  | nil => exact fun _ _ _ _ more => more
  | cons e es =>
    intro mid rest us hmid more
    have htail := restCode_lexes (fun a ha => h a (List.mem_cons_of_mem _ ha)) hmid more
    have hhead := h e (List.mem_cons_self ..) (hmid.restCode es) htail
    rw [listCode, listTokens]
    simpa using hhead

/-- Scans of the code of a plain expression find its tokens. -/
theorem Expr.Plain.lexes {e : Expr} (h : e.Plain) : LexesFront e.code e.tokens := by
  -- in each case from the back to the front, since what follows decides where a lexeme ends
  induction h with
  | @int value _ nonneg _ =>
    intro mid rest us hmid more
    obtain ⟨hne, hdigits⟩ := digits_of_nonneg nonneg
    have hscan :=
      Scan.next_int hne (fun c hc => Text.isDigit_of_isDigit (hdigits c hc)) hmid
    rw [String.ofList_toList] at hscan
    exact .token hscan more
  | string inLine =>
    intro mid rest us hmid more
    have hscan := Scan.next_string (Scan.stringBody_stringCode inLine) mid
    rw [String.ofList_toList] at hscan
    rw [Expr.code, List.cons_append, List.append_assoc]
    exact .token hscan more
  | name isName => exact fun mid rest us hmid more => .name isName hmid more
  | binary _ isOp _ ihl ihr =>
    intro mid rest us hmid more
    have hright := ihr (.cons (by decide) mid) (more.mark (c := ')') (by decide) rfl)
    have hop := Lexes.token (Scan.next_operator isOp _) (.gap (Scan.next_space _) hright)
    have hleft := ihl (.cons (by decide) _) (.gap (Scan.next_space _) hop)
    simpa [Expr.code, Expr.tokens] using hleft.mark (c := '(') (by decide) rfl
  | unary hoperand ih =>
    intro mid rest us hmid more
    have hinner := ih (.cons (by decide) mid) (more.mark (c := ')') (by decide) rfl)
    -- a minus sign in front of `>` would be read as an arrow
    obtain ⟨c, cs, hcode, hc⟩ := hoperand.code_head
    have hminus := Lexes.token (Scan.next_minus hc _) (by simpa [hcode] using hinner)
    have hkind : operatorKind "-" = .minus := rfl
    simpa [Expr.code, Expr.tokens, hcode, hkind] using hminus.mark (c := '(') (by decide) rfl
  | call _ _ _ ih ihs =>
    intro mid rest us hmid more
    have hargs := listCode_lexes ihs (.cons (by decide) mid) (more.mark (c := ')') (by decide) rfl)
    have hcallee := ih (.cons (by decide) _) (hargs.mark (c := '(') (by decide) rfl)
    simpa [Expr.code, Expr.tokens] using hcallee
  | field _ isName ih =>
    intro mid rest us hmid more
    have hname := Lexes.name isName hmid more
    have hobject := ih (.field isName mid) (hname.mark (c := '.') (by decide) rfl)
    simpa [Expr.code, Expr.tokens] using hobject
  | list _ ihs =>
    intro mid rest us hmid more
    have helements :=
      listCode_lexes ihs (.cons (by decide) mid) (more.mark (c := ']') (by decide) rfl)
    simpa [Expr.code, Expr.tokens] using helements.mark (c := '[') (by decide) rfl

end Owl
