/-
Reading JSON texts.

Blanks may stand between the parts of a text.  Of two fields of one name the last
value counts, at the place of the first.  A fault has the place where reading
cannot go on, by line, column and character.
-/
import Owl.Json
import Owl.Number.Reading

namespace Owl

namespace Json

/-- Why a text is not JSON. -/
inductive Cause
  | byteOrderMark
  | expectingValue
  | expectingName
  | expectingColon
  | expectingComma
  | extraData
  | unterminatedText
  | controlCharacter
  | badEscape
  | badUnicodeEscape
  /-- An integer has more digits than are read. -/
  | numeral (fault : NumeralFault)
deriving DecidableEq, Repr

def Cause.message : Cause → String
  | byteOrderMark => "Unexpected UTF-8 BOM (decode using utf-8-sig)"
  | expectingValue => "Expecting value"
  | expectingName => "Expecting property name enclosed in double quotes"
  | expectingColon => "Expecting ':' delimiter"
  | expectingComma => "Expecting ',' delimiter"
  | extraData => "Extra data"
  | unterminatedText => "Unterminated string starting at"
  | controlCharacter => "Invalid control character at"
  | badEscape => "Invalid \\escape"
  | badUnicodeEscape => "Invalid \\uXXXX escape"
  | numeral fault => fault.message

/-- A fault: its cause, and how many characters are left at its place. -/
structure Fault where
  cause : Cause
  left : Nat
deriving DecidableEq, Repr

/-- A fault in a text, with its place. -/
def Fault.message (text : List Char) (f : Fault) : String :=
  match f.cause with
  | .numeral fault => fault.message
  | cause =>
    let before := text.take (text.length - f.left)
    let line := before.count '\n' + 1
    let column := (before.reverse.takeWhile (· != '\n')).length + 1
    cause.message ++ ": line " ++ toString line ++ " column " ++ toString column ++ " (char " ++
      toString before.length ++ ")"

/-- A part of a text and the rest, or a fault. -/
abbrev Read (α : Type) := Except Fault (α × List Char)

/-- Fails where `rest` is left. -/
def fail {α : Type} (cause : Cause) (rest : List Char) : Except Fault α :=
  .error ⟨cause, rest.length⟩

def skipBlanks (cs : List Char) : List Char :=
  cs.dropWhile fun c => c == ' ' || c == '\t' || c == '\n' || c == '\r'

/-! ### Numbers -/

/-- The digits at the start of a text, and the rest. -/
def digitSpan (cs : List Char) : List Char × List Char := cs.span Char.isDigit

/-- The digits before a fraction: a zero stands alone. -/
def wholePart? : List Char → Option (List Char × List Char)
  | '0' :: rest => some (['0'], rest)
  | cs =>
    match digitSpan cs with
    | ([], _) => none
    | parts => some parts

/-- The places after a point, with the point; nothing if no digit follows it. -/
def placesPart : List Char → List Char × List Char
  | '.' :: rest =>
    match digitSpan rest with
    | ([], _) => ([], '.' :: rest)
    | (digits, rest) => ('.' :: digits, rest)
  | cs => ([], cs)

/-- An exponent; nothing if it has no digits. -/
def exponentPart : List Char → List Char × List Char
  | [] => ([], [])
  | e :: rest =>
    if e != 'e' && e != 'E' then ([], e :: rest)
    else
      let (sign, after) := match rest with
        | '+' :: after => (['+'], after)
        | '-' :: after => (['-'], after)
        | after => ([], after)
      match digitSpan after with
      | ([], _) => ([], e :: rest)
      | (digits, after) => (e :: sign ++ digits, after)

def readNumber (cs : List Char) : Read Json :=
  let (sign, unsigned) := match cs with
    | '-' :: rest => (['-'], rest)
    | rest => ([], rest)
  match wholePart? unsigned with
  | none => fail .expectingValue cs
  | some (whole, rest) =>
    let (places, rest) := placesPart rest
    let (exponent, rest) := exponentPart rest
    let s := String.ofList (sign ++ whole ++ places ++ exponent)
    if places.isEmpty && exponent.isEmpty then
      match Numeral.readInt s with
      | .ok i => .ok (int i, rest)
      | .error fault => fail (.numeral fault) cs
    else
      match Numeral.readFloat s with
      | .ok x => .ok (float x, rest)
      | .error fault => fail (.numeral fault) cs

/-! ### Texts -/

def hexValue? (c : Char) : Option Nat :=
  if '0' ≤ c && c ≤ '9' then some (c.toNat - 48)
  else if 'a' ≤ c && c ≤ 'f' then some (c.toNat - 87)
  else if 'A' ≤ c && c ≤ 'F' then some (c.toNat - 55)
  else none

def hexUnit? (a b c d : Char) : Option Nat := do
  let digits ← [a, b, c, d].mapM hexValue?
  return digits.foldl (fun n digit => 16 * n + digit) 0

/-- The character that a letter after a backslash stands for. -/
def escaped? : Char → Option Char
  | '"' => some '"'
  | '\\' => some '\\'
  | '/' => some '/'
  | 'b' => some (Char.ofNat 8)
  | 'f' => some (Char.ofNat 12)
  | 'n' => some '\n'
  | 'r' => some '\r'
  | 't' => some '\t'
  | _ => none

/-- The character of a unit, of which a surrogate by itself has none. -/
def unitChar (n : Nat) : Char :=
  if 0xD800 ≤ n && n < 0xE000 then Char.ofNat 0xFFFD else Char.ofNat n

/-- The character of a pair of surrogates, if two units are one. -/
def pairChar? (high low : Nat) : Option Char :=
  if 0xD800 ≤ high && high < 0xDC00 && 0xDC00 ≤ low && low < 0xE000 then
    some (Char.ofNat (0x10000 + (high - 0xD800) * 1024 + (low - 0xDC00)))
  else none

/-- The rest of a text after its opening quote.  `start` is how many characters were left at that
quote. -/
def readText (start : Nat) : List Char → Read (List Char)
  | [] => .error ⟨.unterminatedText, start⟩
  | '"' :: rest => .ok ([], rest)
  | '\\' :: 'u' :: a :: b :: c :: d :: '\\' :: 'u' :: e :: f :: g :: h :: rest =>
    match hexUnit? a b c d, hexUnit? e f g h with
    | none, _ => .error ⟨.badUnicodeEscape, rest.length + 11⟩
    | some high, low? =>
      match if rest.isEmpty then none else low?.bind (pairChar? high) with
      | some c => (readText start rest).map fun r => (c :: r.1, r.2)
      | none =>
        (readText start ('\\' :: 'u' :: e :: f :: g :: h :: rest)).map fun r =>
          (unitChar high :: r.1, r.2)
  | '\\' :: 'u' :: a :: b :: c :: d :: rest =>
    match rest, hexUnit? a b c d with
    | [], _ => .error ⟨.badUnicodeEscape, 5⟩
    | rest, none => .error ⟨.badUnicodeEscape, rest.length + 5⟩
    | rest, some n => (readText start rest).map fun r => (unitChar n :: r.1, r.2)
  | '\\' :: 'u' :: rest => .error ⟨.badUnicodeEscape, rest.length + 1⟩
  | ['\\'] => .error ⟨.unterminatedText, start⟩
  | '\\' :: c :: rest =>
    match escaped? c with
    | some c => (readText start rest).map fun r => (c :: r.1, r.2)
    | none => .error ⟨.badEscape, rest.length + 2⟩
  | c :: rest =>
    if c.toNat < 32 then .error ⟨.controlCharacter, rest.length + 1⟩
    else (readText start rest).map fun r => (c :: r.1, r.2)

/-! ### Values -/

/-- Puts a field into an object: a name that is there keeps its place. -/
def insertField : List (String × Json) → String × Json → List (String × Json)
  | [], field => [field]
  | (key, x) :: rest, field =>
    if key == field.1 then field :: rest else (key, x) :: insertField rest field

mutual

/-- A value.  The fuel bounds the number of parts that are entered. -/
def readValue : Nat → List Char → Read Json
  | 0, cs => fail .expectingValue cs
  | fuel + 1, cs =>
    match cs with
    | '"' :: rest => (readText cs.length rest).map fun r => (text (String.ofList r.1), r.2)
    | '\x7b' :: rest =>
      match skipBlanks rest with
      | '\x7d' :: rest => .ok (object [], rest)
      | rest => (readFields fuel [] rest).map fun r => (object r.1, r.2)
    | '[' :: rest =>
      match skipBlanks rest with
      | ']' :: rest => .ok (list [], rest)
      | rest => (readItems fuel rest).map fun r => (list r.1, r.2)
    | 'n' :: 'u' :: 'l' :: 'l' :: rest => .ok (null, rest)
    | 't' :: 'r' :: 'u' :: 'e' :: rest => .ok (bool true, rest)
    | 'f' :: 'a' :: 'l' :: 's' :: 'e' :: rest => .ok (bool false, rest)
    | 'N' :: 'a' :: 'N' :: rest => .ok (float .nan, rest)
    | 'I' :: 'n' :: 'f' :: 'i' :: 'n' :: 'i' :: 't' :: 'y' :: rest =>
      .ok (float (.infinite false), rest)
    | '-' :: 'I' :: 'n' :: 'f' :: 'i' :: 'n' :: 'i' :: 't' :: 'y' :: rest =>
      .ok (float (.infinite true), rest)
    | cs => readNumber cs

/-- The items of a list, after its bracket. -/
def readItems : Nat → List Char → Read (List Json)
  | 0, cs => fail .expectingValue cs
  | fuel + 1, cs =>
    match readValue fuel cs with
    | .error f => .error f
    | .ok (x, rest) =>
      match skipBlanks rest with
      | ']' :: rest => .ok ([x], rest)
      | ',' :: rest => (readItems fuel (skipBlanks rest)).map fun r => (x :: r.1, r.2)
      | rest => fail .expectingComma rest

/-- The fields of an object that follow those in `seen`. -/
def readFields : Nat → List (String × Json) → List Char → Read (List (String × Json))
  | 0, _, cs => fail .expectingName cs
  | fuel + 1, seen, cs =>
    match cs with
    | '"' :: rest =>
      match readText cs.length rest with
      | .error f => .error f
      | .ok (key, rest) =>
        match skipBlanks rest with
        | ':' :: rest =>
          match readValue fuel (skipBlanks rest) with
          | .error f => .error f
          | .ok (x, rest) =>
            let seen := insertField seen (String.ofList key, x)
            match skipBlanks rest with
            | '\x7d' :: rest => .ok (seen, rest)
            | ',' :: rest => readFields fuel seen (skipBlanks rest)
            | rest => fail .expectingComma rest
        | rest => fail .expectingColon rest
    | cs => fail .expectingName cs

end

def readAll (cs : List Char) : Except Fault Json :=
  if cs.head? == some '\ufeff' then fail .byteOrderMark cs
  else
    match readValue (2 * cs.length + 2) (skipBlanks cs) with
    | .error f => .error f
    | .ok (x, rest) =>
      match skipBlanks rest with
      | [] => .ok x
      | rest => fail .extraData rest

/-- Reads a text, or says why it cannot be read. -/
def read (s : String) : Except (Cause × String) Json :=
  match readAll s.toList with
  | .ok x => .ok x
  | .error f => .error (f.cause, f.message s.toList)

end Json

end Owl
