/-
Reading a source text into tokens.

`Scan.next` looks at the front of a text and says what stands there: something to
pass over, a token, or a fault.  It reports the characters it took, so that
`lex`, which repeats it, can place every token by the text before it.

* `Scan.next` never looks at positions;
* `lex` keeps the tokens in front of a fault.
-/
import Owl.Token
import Owl.Text.Word

namespace Owl

/-- What can be wrong with the characters of a source text. -/
inductive LexFault
  | unexpected (c : Char)
  | lineFeedInString
  | openString
  | openComment
  /-- A backslash ends the text inside a string. -/
  | danglingEscape
deriving DecidableEq, Repr

namespace LexFault

def message : LexFault → String
  | unexpected c => "Unexpected character: " ++ Text.quoted (String.singleton c)
  | lineFeedInString => "Unterminated string (newline in string literal)"
  | openString => "Unterminated string"
  | openComment => "Unterminated multi-line comment"
  | danglingEscape => "string index out of range"

def hint? : LexFault → Option String
  | unexpected _ => none
  | lineFeedInString => some "strings cannot span multiple lines; use \\n for newlines"
  | openString => some "did you forget to close the string with '\"'?"
  | openComment => some "did you forget to close the comment with '*/'?"
  | danglingEscape => none

end LexFault

/-- A fault of the source text and the start of the construct that has it. -/
structure LexError where
  fault : LexFault
  pos : Position
deriving DecidableEq, Repr

/-- A fault with its place, as reported. -/
def LexError.text (e : LexError) : String :=
  match e.fault with
  | .danglingEscape => e.fault.message
  | f => "Lexer error at " ++ e.pos.text ++ ": " ++ f.message

/-- What stands at the front of a text: the characters taken and those that follow. -/
inductive Scan
  | gap (taken rest : List Char)
  | token (kind : TokenKind) (text : String) (taken rest : List Char)
  | fault (f : LexFault)
deriving DecidableEq, Repr

namespace Scan

def keywords : List (String × TokenKind) := [
  ("fn", .kwFn), ("let", .kwLet), ("mut", .kwMut), ("while", .kwWhile), ("break", .kwBreak),
  ("continue", .kwContinue), ("for", .kwFor), ("in", .kwIn), ("loop", .kwLoop), ("from", .kwFrom),
  ("python", .kwPython), ("import", .kwImport), ("as", .kwAs), ("if", .kwIf), ("else", .kwElse),
  ("return", .kwReturn), ("true", .kwTrue), ("false", .kwFalse), ("match", .kwMatch)]

def wordKind (w : String) : TokenKind :=
  (keywords.lookup w).getD .ident

def pairKind? : Char → Char → Option TokenKind
  | '-', '>' => some .arrow
  | '=', '>' => some .fatArrow
  | '=', '=' => some .eq
  | '!', '=' => some .ne
  | '<', '=' => some .le
  | '>', '=' => some .ge
  | _, _ => none

def singleKind? : Char → Option TokenKind
  | '=' => some .assign
  | '<' => some .lt
  | '>' => some .gt
  | '+' => some .plus
  | '-' => some .minus
  | '*' => some .star
  | '/' => some .slash
  | '%' => some .percent
  | '(' => some .lparen
  | ')' => some .rparen
  | '\x7b' => some .lbrace
  | '\x7d' => some .rbrace
  | '[' => some .lbracket
  | ']' => some .rbracket
  | ',' => some .comma
  | ':' => some .colon
  | '.' => some .dot
  | '?' => some .question
  | _ => none

def isLayout (c : Char) : Bool :=
  c == ' ' || c == '\t' || c == '\r' || c == '\n'

def isWordStart (c : Char) : Bool :=
  Text.isLetter c || c == '_'

/-- What a backslash and the character after it denote. -/
def unescape : Char → Char
  | 'n' => '\n'
  | 't' => '\t'
  | 'r' => '\r'
  | c => c

/-- The inside of a block comment up to its end, with the end: what was taken and what follows. -/
def commentBody? : List Char → Option (List Char × List Char)
  | [] => none
  | '*' :: '/' :: rest => some (['*', '/'], rest)
  | c :: rest => (commentBody? rest).map fun r => (c :: r.1, r.2)

/-- The inside of a string up to its closing quote, with the quote: the string denoted, what was
taken and what follows. -/
def stringBody : List Char → Except LexFault (List Char × List Char × List Char)
  | [] => .error .openString
  | '"' :: rest => .ok ([], ['"'], rest)
  | '\n' :: _ => .error .lineFeedInString
  | ['\\'] => .error .danglingEscape
  | '\\' :: c :: rest => do
    let r ← stringBody rest
    return (unescape c :: r.1, '\\' :: c :: r.2.1, r.2.2)
  | c :: rest => do
    let r ← stringBody rest
    return (c :: r.1, c :: r.2.1, r.2.2)

/-- A number: digits, and a point with more digits if a digit follows the point. -/
def number (cs : List Char) : Scan :=
  let whole := cs.takeWhile Text.isDigit
  match cs.dropWhile Text.isDigit with
  | '.' :: d :: rest =>
    if Text.isDigit d then
      let places := (d :: rest).takeWhile Text.isDigit
      let taken := whole ++ '.' :: places
      .token .float (String.ofList taken) taken ((d :: rest).dropWhile Text.isDigit)
    else .token .int (String.ofList whole) whole ('.' :: d :: rest)
  | rest => .token .int (String.ofList whole) whole rest

/-- A word: a keyword or an identifier. -/
def word (cs : List Char) : Scan :=
  let taken := cs.takeWhile Text.isWordChar
  .token (wordKind (String.ofList taken)) (String.ofList taken) taken
    (cs.dropWhile Text.isWordChar)

/-- The longest operator or delimiter at the front of a text. -/
def operator? : List Char → Option Scan
  | [] => none
  | c :: cs =>
    match cs with
    | [] => (singleKind? c).map fun k => .token k (String.ofList [c]) [c] []
    | d :: rest =>
      match pairKind? c d with
      | some k => some (.token k (String.ofList [c, d]) [c, d] rest)
      | none => (singleKind? c).map fun k => .token k (String.ofList [c]) [c] (d :: rest)

/-- A string, a number, a word, or a character that can start nothing. -/
def literal : List Char → Scan
  | [] => .gap [] []
  | '"' :: cs =>
    match stringBody cs with
    | .ok (value, taken, rest) => .token .string (String.ofList value) ('"' :: taken) rest
    | .error f => .fault f
  | c :: cs =>
    if Text.isDigit c then number (c :: cs)
    else if isWordStart c then word (c :: cs)
    else .fault (.unexpected c)

def next : List Char → Scan
  | [] => .gap [] []
  | '/' :: '*' :: '*' :: cs =>
    match commentBody? cs with
    | some (taken, rest) => .gap ('/' :: '*' :: '*' :: taken) rest
    | none => .fault .openComment
  | '/' :: '/' :: cs => .gap ('/' :: '/' :: cs.takeWhile (· != '\n')) (cs.dropWhile (· != '\n'))
  | c :: cs =>
    if isLayout c then .gap [c] cs
    else (operator? (c :: cs)).getD (literal (c :: cs))

end Scan

/-- The tokens of a text, and the fault that ended the reading, if one did. -/
structure Lexed where
  tokens : List Token
  error? : Option LexError
deriving DecidableEq, Repr

namespace Lexed

/-- Reads on from a position; `fuel` bounds the number of scans. -/
def ofChars : Nat → Position → List Char → Lexed
  | 0, pos, _ => ⟨[⟨.eof, "", pos⟩], none⟩
  | _, pos, [] => ⟨[⟨.eof, "", pos⟩], none⟩
  | fuel + 1, pos, c :: cs =>
    match Scan.next (c :: cs) with
    | .gap taken rest => ofChars fuel (pos.afterAll taken) rest
    | .token kind text taken rest =>
      let more := ofChars fuel (pos.afterAll taken) rest
      ⟨⟨kind, text, pos⟩ :: more.tokens, more.error?⟩
    | .fault f => ⟨[], some ⟨f, pos⟩⟩

end Lexed

/-- Reads a source text into tokens.  Each scan takes at least one character, so the length of the
text bounds their number. -/
def lex (source : String) : Lexed :=
  let cs := source.toList
  Lexed.ofChars cs.length .start cs

/-- The tokens of a text without a fault, or the fault. -/
def tokenize (source : String) : Except LexError (List Token) :=
  let lexed := lex source
  match lexed.error? with
  | none => .ok lexed.tokens
  | some e => .error e

end Owl
