/-
String literals of the target.

A literal stands between two quotes within a line.  A backslash takes the character
behind it along: a quote behind a backslash does not end the literal, and the two,
with the digits or the name that may follow, stand for another character.
-/
import Owl.Compile
import Owl.Json.Reading

namespace Owl

def isLineBreak (c : Char) : Bool := c == '\n' || c == '\r'

namespace Target

/-! ### Literals -/

/-- The inside of a literal, up to the first quote that is not behind a backslash, and what follows
that quote.  There is none if the line ends first. -/
def scanString (quote : Char) : List Char → Option (List Char × List Char)
  | [] => none
  | '\\' :: d :: cs =>
    if isLineBreak d then none else (scanString quote cs).map fun r => ('\\' :: d :: r.1, r.2)
  | c :: cs =>
    if c == quote then some ([], cs)
    else if isLineBreak c || c == '\\' then none
    else (scanString quote cs).map fun r => (c :: r.1, r.2)

/-- The character of a number that is written in `count` hexadecimal digits. -/
def hexChar? (count : Nat) (cs : List Char) : Option Char := do
  let digits ← (cs.take count).mapM Json.hexValue?
  let n := digits.foldl (fun n digit => 16 * n + digit) 0
  if digits.length == count && n.isValidChar then some (Char.ofNat n) else none

def isOctal (c : Char) : Bool := '0' ≤ c && c ≤ '7'

/-- What a backslash and a character stand for, if no more than one character counts.  The end of a
line stands for nothing; in front of a character that has no meaning the backslash stays. -/
def simpleEscape : Char → List Char
  | '\n' => []
  | '\\' => ['\\']
  | '"' => ['"']
  | '\x27' => ['\x27']
  | 'a' => ['\x07']
  | 'b' => ['\x08']
  | 'f' => ['\x0c']
  | 'n' => ['\n']
  | 'r' => ['\r']
  | 't' => ['\t']
  | 'v' => ['\x0b']
  | c => ['\\', c]

/-- What a backslash in front of a text stands for, and how many characters of the text count.
`named` knows the characters that have names. -/
def escape? (named : List Char → Option Char) : List Char → Option (List Char × Nat)
  | [] => none
  | 'x' :: cs => (hexChar? 2 cs).map fun c => ([c], 3)
  | 'u' :: cs => (hexChar? 4 cs).map fun c => ([c], 5)
  | 'U' :: cs => (hexChar? 8 cs).map fun c => ([c], 9)
  | 'N' :: cs =>
    let name := (cs.drop 1).takeWhile (· != '\x7d')
    if cs.head? == some '\x7b' && name.length + 1 < cs.length then
      (named name).map fun c => ([c], name.length + 3)
    else none
  | c :: cs =>
    if isOctal c then
      let digits := ((c :: cs).take 3).takeWhile isOctal
      some ([Char.ofNat (digits.foldl (fun n d => 8 * n + (d.toNat - 48)) 0)], digits.length)
    else some (simpleEscape c, 1)

/-- Decodes on; `skip` counts the characters of an escape that are still to be passed over. -/
def decodeFrom (named : List Char → Option Char) : Nat → List Char → Option (List Char)
  | _, [] => some []
  | skip + 1, _ :: cs => decodeFrom named skip cs
  | 0, c :: cs =>
    if c == '\\' then
      match escape? named cs with
      | none => none
      | some (value, taken) => (decodeFrom named taken cs).map (value ++ ·)
    else (decodeFrom named 0 cs).map (c :: ·)

/-- The characters that the inside of a literal stands for. -/
def decode (named : List Char → Option Char) (body : List Char) : Option (List Char) :=
  decodeFrom named 0 body

/-- The string that a text stands for, if all of the text is a literal. -/
def literal? (named : List Char → Option Char) : List Char → Option (List Char)
  | '"' :: cs =>
    match scanString '"' cs with
    | some (body, []) => decode named body
    | _ => none
  | _ => none

/-! ### Literals that are emitted -/

theorem escape_of_plain {c : Char} (h : (c == '\\' || c == '"') = false) :
    stringCode.escape c = [c] := by
  rw [stringCode.escape, h]
  rfl

theorem escape_of_special {c : Char} (h : (c == '\\' || c == '"') = true) :
    stringCode.escape c = ['\\', c] := by
  rw [stringCode.escape, h]
  rfl

/-- No character that is escaped ends a line. -/
theorem isLineBreak_of_special {c : Char} (h : (c == '\\' || c == '"') = true) :
    isLineBreak c = false := by
  rw [Bool.or_eq_true, beq_iff_eq, beq_iff_eq] at h
  rcases h with rfl | rfl <;> decide

theorem scanString_of_plain {quote c : Char} (h : (c == '\\' || c == quote) = false)
    (cs : List Char) :
    scanString quote (c :: cs) =
      if isLineBreak c then none else (scanString quote cs).map fun r => (c :: r.1, r.2) := by
  rw [Bool.or_eq_false_iff] at h
  rw [scanString, h.1, h.2, Bool.or_false, if_neg Bool.false_ne_true]
  rintro d ds rfl
  exact absurd h.1 (by decide)

/-- The inside of an emitted literal ends where it should, unless the line ends before. -/
theorem scanString_escaped (cs rest : List Char) :
    scanString '"' (cs.flatMap stringCode.escape ++ '"' :: rest) =
      if cs.any isLineBreak then none else some (cs.flatMap stringCode.escape, rest) := by
  induction cs with
  | nil => simp [scanString]
  | cons c cs ih =>
    rw [List.flatMap_cons, List.append_assoc, List.any_cons]
    by_cases hspecial : (c == '\\' || c == '"') = true
    · -- The backslash takes the character along, whichever of the two it is.
      have hbreak := isLineBreak_of_special hspecial
      rw [escape_of_special hspecial, List.cons_append, List.singleton_append, scanString, hbreak,
        Bool.false_or, if_neg Bool.false_ne_true, ih]
      by_cases hany : cs.any isLineBreak = true
      · rw [if_pos hany, if_pos hany, Option.map_none]
      · rw [if_neg hany, if_neg hany, Option.map_some]
        rfl
    · rw [Bool.not_eq_true] at hspecial
      rw [escape_of_plain hspecial, List.singleton_append, scanString_of_plain hspecial, ih]
      by_cases hbreak : isLineBreak c = true
      · rw [if_pos hbreak, hbreak, Bool.true_or, if_pos rfl]
      · rw [if_neg hbreak, Bool.eq_false_iff.mpr hbreak, Bool.false_or]
        by_cases hany : cs.any isLineBreak = true
        · rw [if_pos hany, if_pos hany, Option.map_none]
        · rw [if_neg hany, if_neg hany, Option.map_some]
          rfl

theorem escape?_special (named : List Char → Option Char) {c : Char}
    (h : (c == '\\' || c == '"') = true) (cs : List Char) :
    escape? named (c :: cs) = some ([c], 1) := by
  rw [Bool.or_eq_true, beq_iff_eq, beq_iff_eq] at h
  rcases h with rfl | rfl <;> rfl

/-- Decoding takes all escapes of an emitted literal back. -/
theorem decode_escaped (named : List Char → Option Char) (cs : List Char) :
    decode named (cs.flatMap stringCode.escape) = some cs := by
  rw [decode]
  induction cs with
  | nil => rfl
  | cons c cs ih =>
    rw [List.flatMap_cons]
    by_cases hspecial : (c == '\\' || c == '"') = true
    · rw [escape_of_special hspecial, List.cons_append, List.singleton_append, decodeFrom,
        if_pos (by decide), escape?_special named hspecial]
      show (decodeFrom named 0 (cs.flatMap stringCode.escape)).map _ = _
      rw [ih]
      rfl
    · rw [Bool.not_eq_true] at hspecial
      have hne : (c == '\\') = false := (Bool.or_eq_false_iff.mp hspecial).1
      rw [escape_of_plain hspecial, List.singleton_append, decodeFrom, hne,
        if_neg Bool.false_ne_true, ih]
      rfl

theorem toList_stringCode (s : String) :
    (stringCode s).toList = '"' :: (s.toList.flatMap stringCode.escape ++ ['"']) := by
  simp [stringCode]

/-- **String literals survive.**  The inside of the literal that is emitted for a string stands for
that string, whatever is in it.  The whole is a literal of one line, and read as the string, exactly
if the string has no line break in it. -/
theorem stringCode_survives (named : List Char → Option Char) (s : String) :
    decode named (s.toList.flatMap stringCode.escape) = some s.toList ∧
      literal? named (stringCode s).toList =
        if s.toList.any isLineBreak then none else some s.toList := by
  refine ⟨decode_escaped named s.toList, ?_⟩
  rw [toList_stringCode, literal?, scanString_escaped]
  by_cases hbreak : s.toList.any isLineBreak = true
  · rw [if_pos hbreak, if_pos hbreak]
  · rw [if_neg hbreak, if_neg hbreak]
    exact decode_escaped named s.toList

/-- A line break that is written as an escape is emitted as it is: the literal does not end in its
line. -/
theorem compile_breaks_string :
    (compile true "let x = \"line1\\nline2\"").toOption = some "x = \"line1\nline2\"" ∧
      stringCode "line1\nline2" = "\"line1\nline2\"" ∧
      literal? (fun _ => none) "\"line1\nline2\"".toList = none := by
  refine ⟨?_, ?_, ?_⟩
  · rw [compile_of_toList String.toList_ofList]
    decide +kernel
  · decide +kernel
  · decide +kernel

end Target

end Owl
