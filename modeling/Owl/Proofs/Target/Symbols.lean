/-
The symbols that expressions of the target are written with.

* `lexes_identifier`, `lexes_numeral`, `lexes_quoted` — words, numbers and strings
  are symbols;
* `LexesFree.append`, `Lexes.mark` — the symbols of two texts are those of the first and
  then those of the second.
-/
import Owl.Proofs.Renumbering.Text
import Owl.Proofs.Target.Spelling
import Owl.Proofs.Target.Strings

namespace Owl.Target

open Text

variable {s a b : String} {rest cs : List Char} {dotted : Bool} {c : Char}

/-! ### Symbols -/

/-- An operator between two operands. -/
inductive Op
  | add
  | sub
  | mul
  | div
  | mod
  | eq
  | ne
  | lt
  | gt
  | le
  | ge
  | is
  | isNot
deriving DecidableEq, Repr

/-- What a text of the target is made of. -/
inductive Symbol
  | name (s : String)
  | number (s : String)
  /-- What stands between the quotes, as it is written. -/
  | string (s : String)
  | op (o : Op)
  | lparen
  | rparen
  | lbracket
  | rbracket
  | comma
  | dot
  | colon
  | kwAnd
  | kwElse
  | kwIf
  | kwIs
  | kwLambda
  | kwNot
  /-- A keyword that stands in no expression that is read here. -/
  | reserved (s : String)
deriving DecidableEq, Repr

variable {ts us : List Symbol} {symbol : Symbol}

def keywords : List (String × Symbol) :=
  [("and", Symbol.kwAnd), ("else", Symbol.kwElse), ("if", Symbol.kwIf), ("is", Symbol.kwIs),
    ("lambda", Symbol.kwLambda), ("not", Symbol.kwNot)] ++
  ["as", "assert", "async", "await", "break", "class", "continue", "def", "del", "elif", "except",
    "finally", "for", "from", "global", "import", "in", "nonlocal", "or", "pass", "raise", "return",
    "try", "while", "with", "yield"].map fun s => (s, Symbol.reserved s)

def constants : List String := ["False", "None", "True"]

def wordSymbol (s : String) : Symbol :=
  match keywords.find? (·.1 == s) with
  | some (_, symbol) => symbol
  | none => .name s

/-- Whether a word is a name, and can be the name of anything.  All characters of words are taken,
also those (such as `²`) that an interpreter does not take in a name. -/
def isIdentifier (s : String) : Bool :=
  s.toList.all isWordChar && s.toList.head?.any (!·.isDigit) && !keywords.any (·.1 == s) &&
    !constants.contains s

/-- The operators that are written with one character, and the marks. -/
def markSymbol? : Char → Option Symbol
  | '+' => some (.op .add)
  | '-' => some (.op .sub)
  | '*' => some (.op .mul)
  | '/' => some (.op .div)
  | '%' => some (.op .mod)
  | '<' => some (.op .lt)
  | '>' => some (.op .gt)
  | '(' => some .lparen
  | ')' => some .rparen
  | '[' => some .lbracket
  | ']' => some .rbracket
  | ',' => some .comma
  | '.' => some .dot
  | ':' => some .colon
  | _ => none

/-- The operators that are written with an equals sign behind another character, if there is one. -/
def pairSymbol? (c : Char) (isPair : Bool) : Option Symbol :=
  if isPair then
    match c with
    | '=' => some (.op .eq)
    | '!' => some (.op .ne)
    | '<' => some (.op .le)
    | '>' => some (.op .ge)
    | _ => none
  else none

/-- How many characters the exponent of a number takes. -/
def exponentLength : List Char → Nat
  | 'e' :: cs =>
    let sign := if cs.head? == some '+' || cs.head? == some '-' then 1 else 0
    let digits := (cs.drop sign).takeWhile Char.isDigit
    if digits.isEmpty then 0 else 1 + sign + digits.length
  | _ => 0

/-- How many characters the point and the places of a number take. -/
def placesLength (cs : List Char) : Nat :=
  if cs.head? == some '.' then 1 + ((cs.drop 1).takeWhile Char.isDigit).length else 0

def numberLength (cs : List Char) : Nat :=
  let whole := (cs.takeWhile Char.isDigit).length
  let rest := cs.drop whole
  whole + placesLength rest + exponentLength (rest.drop (placesLength rest))

/-- The symbol in front, and how many characters it takes.  A word cannot follow a number
directly. -/
def scan : List Char → Option (Symbol × Nat)
  | [] => none
  | c :: cs =>
    if c == '"' || c == '\x27' then
      (scanString c cs).map fun r => (.string (String.ofList r.1), r.1.length + 2)
    else if c.isDigit then
      let length := numberLength (c :: cs)
      if ((c :: cs).drop length).head?.any isWordChar then none
      else some (.number (String.ofList ((c :: cs).take length)), length)
    else if isWordChar c then
      let word := (c :: cs).takeWhile isWordChar
      some (wordSymbol (String.ofList word), word.length)
    else match pairSymbol? c (cs.head? == some '=') with
      | some symbol => some (symbol, 2)
      | none => (markSymbol? c).map (·, 1)

/-- The symbols from a place on; `skip` counts the characters of a symbol that are still to be
passed over. -/
def lexFrom : Nat → List Char → Option (List Symbol)
  | _, [] => some []
  | skip + 1, _ :: cs => lexFrom skip cs
  | 0, c :: cs =>
    if c == ' ' then lexFrom 0 cs
    else match scan (c :: cs) with
      | none => none
      | some (symbol, length) => (lexFrom (length - 1) cs).map (symbol :: ·)

/-- The symbols of a text. -/
def lex (s : String) : Option (List Symbol) := lexFrom 0 s.toList

/-! ### Texts that stand for symbols -/

/-- Whether a text can stand behind another one.  A point can stand behind a name, but not behind a
number. -/
def follows (dotted : Bool) (rest : List Char) : Bool :=
  !rest.head?.any fun c => isWordChar c || c == '=' || (!dotted && c == '.')

def LexesFree (s : String) (ts : List Symbol) : Prop :=
  ∀ rest, lexFrom 0 (s.toList ++ rest) = (lexFrom 0 rest).map (ts ++ ·)

/-- A text gives symbols, if nothing stands behind it that would run together with it. -/
def Lexes (dotted : Bool) (s : String) (ts : List Symbol) : Prop :=
  ∀ rest, follows dotted rest = true → lexFrom 0 (s.toList ++ rest) = (lexFrom 0 rest).map (ts ++ ·)

theorem LexesFree.lexes (h : LexesFree s ts) (dotted : Bool) :
    Lexes dotted s ts := fun rest _ => h rest

theorem Lexes.undotted (h : Lexes dotted s ts) : Lexes false s ts := by
  intro rest hrest
  refine h rest ?_
  cases dotted with
  | false => exact hrest
  | true =>
    rw [follows, Bool.not_eq_true'] at hrest ⊢
    cases hhead : rest.head? with
    | none => rfl
    | some c =>
      rw [hhead, Option.any_some, Bool.or_eq_false_iff] at hrest
      rw [Option.any_some, hrest.1]
      rfl

theorem LexesFree.append (ha : LexesFree a ts) (hb : Lexes dotted b us) :
    Lexes dotted (a ++ b) (ts ++ us) := by
  intro rest hrest
  rw [String.toList_append, List.append_assoc, ha, hb rest hrest, Option.map_map]
  simp [Function.comp_def]

theorem LexesFree.append_free (ha : LexesFree a ts) (hb : LexesFree b us) :
    LexesFree (a ++ b) (ts ++ us) := by
  intro rest
  rw [String.toList_append, List.append_assoc, ha, hb rest, Option.map_map]
  simp [Function.comp_def]

theorem follows_append (hne : s ≠ "") (h : follows dotted s.toList = true) (rest : List Char) :
    follows dotted (s.toList ++ rest) = true := by
  rw [follows, List.head?_append_of_ne_nil]
  · exact h
  · rwa [Ne, String.toList_eq_nil_iff]

/-- What stands in front of a mark can be anything, and so can what stands behind it. -/
theorem Lexes.mark (ha : Lexes dotted a ts) (hb : LexesFree b us) (hne : b ≠ "")
    (h : follows dotted b.toList = true) : LexesFree (a ++ b) (ts ++ us) := by
  intro rest
  rw [String.toList_append, List.append_assoc, ha _ (follows_append hne h rest), hb rest,
    Option.map_map]
  simp [Function.comp_def]

theorem Lexes.lex_eq (h : Lexes dotted s ts) : lex s = some ts := by
  have hall := h [] rfl
  rw [List.append_nil] at hall
  rw [lex, hall]
  show some (ts ++ []) = some ts
  rw [List.append_nil]

/-! ### Words, numbers and strings -/

theorem lexFrom_skip (cs rest : List Char) : lexFrom cs.length (cs ++ rest) = lexFrom 0 rest := by
  induction cs with
  | nil => rfl
  | cons c cs ih =>
    exact ih

theorem lexFrom_scan (hc : c ≠ ' ') (h : scan (c :: cs ++ rest) = some (symbol, (c :: cs).length)) :
    lexFrom 0 (c :: cs ++ rest) = (lexFrom 0 rest).map ([symbol] ++ ·) := by
  rw [List.cons_append] at h ⊢
  rw [lexFrom, if_neg (by simpa using hc), h]
  show (lexFrom cs.length (cs ++ rest)).map (symbol :: ·) = _
  rw [lexFrom_skip]
  rfl

theorem takeWhile_append_of_head {p : Char → Bool} (hcs : cs.all p = true)
    (hrest : rest.head?.any p = false) : (cs ++ rest).takeWhile p = cs := by
  have hnil : rest.takeWhile p = [] := by
    cases rest with
    | nil => rfl
    | cons c rest =>
      rw [List.head?_cons, Option.any_some] at hrest
      rw [List.takeWhile_cons, hrest]
      rfl
  rw [List.takeWhile_append_of_pos (List.all_eq_true.mp hcs), hnil, List.append_nil]

theorem not_wordChar_of_follows (h : follows dotted rest = true) :
    rest.head?.any isWordChar = false := by
  rw [follows, Bool.not_eq_true'] at h
  cases hhead : rest.head? with
  | none => rfl
  | some c =>
    rw [hhead, Option.any_some, Bool.or_eq_false_iff, Bool.or_eq_false_iff] at h
    exact h.1.1

theorem lexes_word (hword : s.toList.all isWordChar = true)
    (hstart : s.toList.head?.any (!·.isDigit) = true) : Lexes true s [wordSymbol s] := by
  intro rest hrest
  have hs : String.ofList s.toList = s := String.ofList_toList
  cases hcs : s.toList with
  | nil =>
    rw [hcs] at hstart
    cases hstart
  | cons c cs =>
    have hc : isWordChar c = true := by
      rw [hcs, List.all_cons, Bool.and_eq_true] at hword
      exact hword.1
    have hdigit : c.isDigit = false := by
      rw [hcs, List.head?_cons, Option.any_some, Bool.not_eq_true'] at hstart
      exact hstart
    have hne : ∀ d, isWordChar d = false → c ≠ d := by
      rintro d hd rfl
      rw [hc] at hd
      cases hd
    refine lexFrom_scan (hne ' ' (by decide)) ?_
    have htake := takeWhile_append_of_head hword (not_wordChar_of_follows hrest)
    have hquote : (c == '"' || c == '\x27') = false := by
      rw [Bool.or_eq_false_iff, beq_eq_false_iff_ne, beq_eq_false_iff_ne]
      exact ⟨hne '"' (by decide), hne '\x27' (by decide)⟩
    rw [hcs, List.cons_append] at htake
    rw [List.cons_append, scan, hquote, hdigit, hc, htake]
    simp only [← hcs, hs]
    rfl

theorem lexes_keyword (h : (s, symbol) ∈ keywords) : Lexes true s [symbol] := by
  have hall : keywords.all (fun k => k.1.toList.all isWordChar &&
      k.1.toList.head?.any (!·.isDigit) && wordSymbol k.1 == k.2) = true := by decide +kernel
  have hkeyword := List.all_eq_true.mp hall _ h
  rw [Bool.and_eq_true, Bool.and_eq_true, beq_iff_eq] at hkeyword
  obtain ⟨⟨hword, hstart⟩, hsymbol⟩ := hkeyword
  have hlexes := lexes_word hword hstart
  rwa [hsymbol] at hlexes

theorem wordSymbol_of_not_keyword (h : keywords.any (·.1 == s) = false) :
    wordSymbol s = .name s := by
  have hnone : keywords.find? (·.1 == s) = none := by
    rw [List.find?_eq_none]
    exact fun k hk => by simpa using List.any_eq_false.mp h k hk
  rw [wordSymbol, hnone]

theorem lexes_identifier (h : isIdentifier s = true) : Lexes true s [.name s] := by
  simp only [isIdentifier, Bool.and_eq_true, Bool.not_eq_true'] at h
  have hlexes := lexes_word h.1.1.1 h.1.1.2
  rwa [wordSymbol_of_not_keyword h.1.2] at hlexes

theorem lexes_constant (h : constants.contains s = true) : Lexes true s [.name s] := by
  simp only [constants, List.contains_eq_mem, List.mem_cons, List.not_mem_nil, or_false,
    decide_eq_true_eq] at h
  rcases h with rfl | rfl | rfl <;> exact lexes_word (by decide) (by decide)

theorem numberLength_digits {ds : List Char} (hds : IsDigits ds)
    (hrest : rest.head?.any Char.isDigit = false) :
    numberLength (ds ++ rest) =
      ds.length + placesLength rest + exponentLength (rest.drop (placesLength rest)) := by
  rw [numberLength, takeWhile_append_of_head (List.all_eq_true.mpr hds.2) hrest, List.drop_left]

theorem placesLength_point {fs : List Char} (hfs : IsDigits fs)
    (hrest : rest.head?.any Char.isDigit = false) :
    placesLength ('.' :: (fs ++ rest)) = 1 + fs.length := by
  have htake := takeWhile_append_of_head (List.all_eq_true.mpr hfs.2) hrest
  simp [placesLength, htake]

theorem exponentLength_exponent {es : List Char} (hes : IsExponent es)
    (hrest : rest.head?.any Char.isDigit = false) :
    exponentLength ('e' :: (es ++ rest)) = 1 + es.length := by
  cases hes with
  | plus hes | minus hes =>
    have htake := takeWhile_append_of_head (List.all_eq_true.mpr hes.2) hrest
    simp [exponentLength, htake, hes.1]
    omega

theorem placesLength_of_follows (h : follows false rest = true) : placesLength rest = 0 := by
  rw [follows, Bool.not_eq_true'] at h
  refine if_neg ?_
  rw [beq_iff_eq]
  intro hhead
  rw [hhead] at h
  exact absurd h (by decide)

theorem exponentLength_of_follows (h : follows false rest = true) : exponentLength rest = 0 := by
  have hword := not_wordChar_of_follows h
  cases rest with
  | nil => rfl
  | cons c rest =>
    rw [exponentLength]
    intro cs hcs
    rw [hcs] at hword
    have hletter : isWordChar 'e' = true := by decide
    rw [List.head?_cons, Option.any_some, hletter] at hword
    cases hword

theorem drop_point (fs rest : List Char) :
    ('.' :: (fs ++ rest)).drop (1 + fs.length) = rest := by
  rw [Nat.add_comm, List.drop_succ_cons, List.drop_left]

theorem numberLength_numeral (h : IsNumeral cs) (hrest : follows false rest = true) :
    numberLength (cs ++ rest) = cs.length := by
  have hword := not_wordChar_of_follows hrest
  have hend : rest.head?.any Char.isDigit = false := by
    cases hhead : rest.head? with
    | none => rfl
    | some c =>
      rw [hhead, Option.any_some] at hword
      exact isDigit_of_not_wordChar hword
  have hpoint := placesLength_of_follows hrest
  have hexponent := exponentLength_of_follows hrest
  have hdot : ∀ cs : List Char, ('.' :: cs).head?.any Char.isDigit = false := fun _ => rfl
  have hletter : ∀ cs : List Char, ('e' :: cs).head?.any Char.isDigit = false := fun _ => rfl
  have hnone : ∀ cs : List Char, placesLength ('e' :: cs) = 0 := fun _ => rfl
  cases h with
  | whole hds =>
    rw [numberLength_digits hds hend, hpoint, List.drop_zero, hexponent]
    rfl
  | @point ds fs hds hfs =>
    rw [List.append_assoc, List.cons_append, numberLength_digits hds (hdot _),
      placesLength_point hfs hend, drop_point, hexponent, List.length_append, List.length_cons]
    omega
  | @exponent ds es hds hes =>
    rw [List.append_assoc, List.cons_append, numberLength_digits hds (hletter _), hnone,
      List.drop_zero, exponentLength_exponent hes hend, List.length_append, List.length_cons]
    omega
  | @both ds fs es hds hfs hes =>
    rw [List.append_assoc, List.cons_append, List.append_assoc, List.cons_append,
      numberLength_digits hds (hdot _), placesLength_point hfs (hletter _), drop_point,
      exponentLength_exponent hes hend, List.length_append, List.length_cons, List.length_append,
      List.length_cons]
    omega

/-- A numeral is one symbol. -/
theorem lexes_numeral (h : IsNumeral cs) :
    Lexes false (String.ofList cs) [.number (String.ofList cs)] := by
  intro rest hrest
  have hlength := numberLength_numeral h hrest
  obtain ⟨c, cs, rfl, hc⟩ := h.starts
  have hne : ∀ d, d.isDigit = false → c ≠ d := by
    rintro d hd rfl
    rw [hc] at hd
    cases hd
  rw [String.toList_ofList]
  refine lexFrom_scan (hne ' ' (by decide)) ?_
  have hquote : (c == '"' || c == '\x27') = false := by
    rw [Bool.or_eq_false_iff, beq_eq_false_iff_ne, beq_eq_false_iff_ne]
    exact ⟨hne '"' (by decide), hne '\x27' (by decide)⟩
  rw [List.cons_append] at hlength ⊢
  have hdrop : (c :: (cs ++ rest)).drop (c :: cs).length = rest := by
    rw [← List.cons_append, List.drop_left]
  have htake : (c :: (cs ++ rest)).take (c :: cs).length = c :: cs := by
    rw [← List.cons_append, List.take_left]
  rw [scan, hquote, hc]
  simp only [Bool.false_eq_true, if_false, if_true, hlength, hdrop, htake,
    not_wordChar_of_follows hrest]

/-! ### Strings -/

/-- What stands between two quotes is one symbol, if the second one ends it. -/
theorem lexes_quoted {q : Char} (hq : (q == '"' || q == '\x27') = true) {body : String}
    (h : ∀ rest, scanString q (body.toList ++ q :: rest) = some (body.toList, rest)) :
    LexesFree (String.ofList [q] ++ body ++ String.ofList [q]) [.string body] := by
  intro rest
  have hblank : q ≠ ' ' := by
    rintro rfl
    exact absurd hq (by decide)
  have htext : (String.ofList [q] ++ body ++ String.ofList [q]).toList =
      q :: (body.toList ++ [q]) := by
    simp
  rw [htext]
  refine lexFrom_scan hblank ?_
  rw [List.cons_append, List.append_assoc, List.singleton_append, scan, hq, if_pos rfl, h,
    Option.map_some, String.ofList_toList]
  simp

/-- A text without quotes, backslashes and line breaks is passed over. -/
theorem scanString_plain {q : Char}
    (h : ∀ c ∈ cs, (c == '\\' || c == q) = false ∧ isLineBreak c = false) (rest : List Char) :
    scanString q (cs ++ rest) = (scanString q rest).map fun r => (cs ++ r.1, r.2) := by
  induction cs with
  | nil =>
    rw [List.nil_append]
    cases scanString q rest <;> rfl
  | cons c cs ih =>
    rw [List.forall_mem_cons] at h
    rw [List.cons_append, scanString_of_plain h.1.1, h.1.2, if_neg Bool.false_ne_true, ih h.2,
      Option.map_map]
    rfl

/-! ### Marks -/

/-- Whether a character starts an operator or is a mark, if it is part of a symbol. -/
def isSign (c : Char) : Bool :=
  c != ' ' && !(c == '"' || c == '\x27') && !isWordChar c && !c.isDigit

theorem ne_blank_of_isSign (h : isSign c = true) : c ≠ ' ' := by
  simp only [isSign, Bool.and_eq_true, bne_iff_ne] at h
  exact h.1.1.1

theorem scan_sign (h : isSign c = true) (cs : List Char) :
    scan (c :: cs) = match pairSymbol? c (cs.head? == some '=') with
      | some symbol => some (symbol, 2)
      | none => (markSymbol? c).map (·, 1) := by
  simp only [isSign, Bool.and_eq_true, Bool.not_eq_true'] at h
  rw [scan, h.1.1.2, h.2, h.1.2]
  rfl

def isMarkOf (c : Char) (symbol : Symbol) : Bool :=
  isSign c && pairSymbol? c true == none && markSymbol? c == some symbol

theorem lexesFree_mark (h : isMarkOf c symbol = true) : LexesFree (String.ofList [c]) [symbol] := by
  intro rest
  rw [isMarkOf, Bool.and_eq_true, Bool.and_eq_true, beq_iff_eq, beq_iff_eq] at h
  obtain ⟨⟨hsign, hpair⟩, hmark⟩ := h
  have hnone : ∀ b, pairSymbol? c b = none := by
    intro b
    cases b with
    | true => exact hpair
    | false => rfl
  have hscan : scan (c :: ([] ++ rest)) = some (symbol, 1) := by
    rw [scan_sign hsign, hnone, hmark]
    rfl
  rw [String.toList_ofList]
  exact lexFrom_scan (ne_blank_of_isSign hsign) hscan

theorem lexesFree_blank : LexesFree " " [] := by
  intro rest
  show lexFrom 0 rest = (lexFrom 0 rest).map fun ts => ts
  rw [Option.map_id']

/-- A symbol with a blank on both sides. -/
theorem Lexes.spaced (h : Lexes true s ts) : LexesFree (" " ++ s ++ " ") ts := by
  have hfree := (lexesFree_blank.append h).mark lexesFree_blank (by decide) (by decide)
  rwa [List.append_nil] at hfree

theorem lexesFree_keyword (s : String) (h : (s, symbol) ∈ keywords) {text : String}
    (htext : " " ++ s ++ " " = text) : LexesFree text [symbol] :=
  htext ▸ (lexes_keyword h).spaced

def Op.ofText? : String → Option Op
  | "+" => some .add
  | "-" => some .sub
  | "*" => some .mul
  | "/" => some .div
  | "%" => some .mod
  | "==" => some .eq
  | "!=" => some .ne
  | "<" => some .lt
  | ">" => some .gt
  | "<=" => some .le
  | ">=" => some .ge
  | _ => none

/-- A sign that is no part of an operator with two characters. -/
theorem lexes_sign (hsign : isSign c = true) (hmark : markSymbol? c = some symbol) :
    Lexes true (String.ofList [c]) [symbol] := by
  intro rest hrest
  have hhead : (rest.head? == some '=') = false := by
    rw [beq_eq_false_iff_ne]
    intro heq
    rw [follows, heq] at hrest
    exact absurd hrest (by decide)
  have hscan : scan (c :: ([] ++ rest)) = some (symbol, 1) := by
    rw [scan_sign hsign, List.nil_append, hhead, hmark]
    rfl
  rw [String.toList_ofList]
  exact lexFrom_scan (ne_blank_of_isSign hsign) hscan

theorem lexesFree_pair (hsign : isSign c = true) (hpair : pairSymbol? c true = some symbol) :
    LexesFree (String.ofList [c, '=']) [symbol] := by
  intro rest
  have hscan : scan (c :: (['='] ++ rest)) = some (symbol, 2) := by
    rw [scan_sign hsign]
    show (match pairSymbol? c true with
      | some symbol => some (symbol, 2)
      | none => (markSymbol? c).map (·, 1)) = _
    rw [hpair]
  rw [String.toList_ofList]
  exact lexFrom_scan (ne_blank_of_isSign hsign) hscan

/-- An operator. -/
theorem lexes_op {o : Op} (h : Op.ofText? s = some o) : Lexes true s [.op o] := by
  have hsingle : ∀ (c : Char) {o : Op}, isSign c = true → markSymbol? c = some (.op o) →
      Lexes true (String.ofList [c]) [.op o] := fun _ _ => lexes_sign
  have hpair : ∀ (c : Char) {o : Op}, isSign c = true → pairSymbol? c true = some (.op o) →
      Lexes true (String.ofList [c, '=']) [.op o] :=
    fun _ _ hsign hpair => (lexesFree_pair hsign hpair).lexes true
  unfold Op.ofText? at h
  split at h
  · exact Option.some.inj h ▸ hsingle '+' (by decide) rfl
  · exact Option.some.inj h ▸ hsingle '-' (by decide) rfl
  · exact Option.some.inj h ▸ hsingle '*' (by decide) rfl
  · exact Option.some.inj h ▸ hsingle '/' (by decide) rfl
  · exact Option.some.inj h ▸ hsingle '%' (by decide) rfl
  · exact Option.some.inj h ▸ hpair '=' (by decide) rfl
  · exact Option.some.inj h ▸ hpair '!' (by decide) rfl
  · exact Option.some.inj h ▸ hsingle '<' (by decide) rfl
  · exact Option.some.inj h ▸ hsingle '>' (by decide) rfl
  · exact Option.some.inj h ▸ hpair '<' (by decide) rfl
  · exact Option.some.inj h ▸ hpair '>' (by decide) rfl
  · cases h

end Owl.Target
