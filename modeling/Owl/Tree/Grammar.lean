/-
Parsers on token lists, and the small grammars of types, imports and patterns.

A `Parser` reads from the front of the tokens that are left.  It succeeds, fails
at a token in a way that later reading can recover from, or stops for good.
Repetitions take a bound on their rounds; since every round consumes a token, the
number of tokens bounds them (`Reading` gives that bound).

Design notes: every grammar is a definition of its own that takes the grammars it
refers to as arguments, so facts about it are stated for any such arguments.
Looking past the last token shows the last token again.
-/
import Owl.Number.Reading
import Owl.Token
import Owl.Tree

namespace Owl

/-- What can be wrong with a sequence of tokens. -/
inductive GrammarFault
  | missing (what : String)
  | unexpected (text : String)
  | unknownPattern (name : String)
deriving DecidableEq, Repr

def GrammarFault.message : GrammarFault → String
  | missing what => "Expected " ++ what
  | unexpected text => "Unexpected token: " ++ Text.quoted text
  | unknownPattern name => "Unknown pattern '" ++ name ++ "'. Expected Some, None, Ok, or Err"

/-- A fault, the token that shows it, and how many tokens there are from that one on. -/
structure ParseError where
  fault : GrammarFault
  token : Token
  left : Nat
deriving DecidableEq, Repr

/-- A fault with its place, as reported. -/
def ParseError.text (e : ParseError) : String :=
  "Parse error at " ++ e.token.pos.text ++ ": " ++ e.fault.message

/-- Why reading stops for good. -/
inductive ParseStop
  | numeral (fault : NumeralFault)
  /-- The tokens end without an end mark. -/
  | pastEnd
  /-- The bound on repetitions was too low. -/
  | bound
deriving DecidableEq, Repr

def ParseStop.message : ParseStop → String
  | numeral fault => fault.message
  | pastEnd => "list index out of range"
  | bound => "repetition bound reached"

/-- The outcome of a parser, with the tokens that are left. -/
inductive Parsed (α : Type)
  | ok (value : α) (rest : List Token)
  | fail (error : ParseError) (rest : List Token)
  | stop (cause : ParseStop)
deriving Repr

/-- What stays the same during a reading: the file's name and the last token. -/
structure TokenSource where
  file : String
  last : Token
deriving DecidableEq, Repr

/-- Reads a value from the front of the tokens that are left. -/
def Parser (α : Type) : Type := TokenSource → List Token → Parsed α

namespace Parser

variable {α β : Type}

def pure (a : α) : Parser α := fun _ ts => .ok a ts

def bind (p : Parser α) (f : α → Parser β) : Parser β := fun src ts =>
  match p src ts with
  | .ok a rest => f a src rest
  | .fail e rest => .fail e rest
  | .stop c => .stop c

instance : Monad Parser where
  pure := pure
  bind := bind

def stop (cause : ParseStop) : Parser α := fun _ _ => .stop cause

def peek : Parser Token := fun src ts => .ok (ts.headD src.last) ts

def isNext (kind : TokenKind) : Parser Bool := do
  return (← peek).kind == kind

def isSecond (kind : TokenKind) : Parser Bool := fun _ ts =>
  .ok (match ts with
    | _ :: t :: _ => t.kind == kind
    | _ => false) ts

/-- Takes the next token; an end mark is not passed. -/
def advance : Parser Token := fun _ ts =>
  match ts with
  | [] => .stop .pastEnd
  | t :: rest => .ok t (if t.kind == .eof then t :: rest else rest)

/-- Takes the next token if its kind is among some. -/
def accept? (isKind : TokenKind → Bool) : Parser (Option Token) := do
  if isKind (← peek).kind then some <$> advance else return none

/-- Takes the next token if it is of a kind, and says whether it was. -/
def accept (kind : TokenKind) : Parser Bool := do
  return (← accept? (· == kind)).isSome

def failHere (fault : GrammarFault) : Parser α := fun src ts =>
  .fail ⟨fault, ts.headD src.last, ts.length⟩ ts

def failAt (token : Token) (fault : GrammarFault) : Parser α := fun _ ts =>
  .fail ⟨fault, token, ts.length + 1⟩ ts

/-- Takes the next token, which has to be of a kind. -/
def expect (kind : TokenKind) (what : String) : Parser Token := do
  if ← isNext kind then advance else failHere (.missing what)

def spanOf (t : Token) : Parser Span := fun src ts => .ok (t.span src.file) ts

/-- Items with commas between them, at least one. -/
def commaSeparated (item : Parser α) : Nat → Parser (List α)
  | 0 => stop .bound
  | rounds + 1 => do
    let first ← item
    if ← accept .comma then return first :: (← commaSeparated item rounds)
    else return [first]

/-- Items as long as the next token is of no closing kind. -/
def manyUntil (isClosing : TokenKind → Bool) (item : Parser α) : Nat → Parser (List α)
  | 0 => stop .bound
  | rounds + 1 => do
    if isClosing (← peek).kind then return []
    else
      let first ← item
      return first :: (← manyUntil isClosing item rounds)

/-! ### First tokens -/

section FirstToken

variable {src : TokenSource} {t : Token} {ts us : List Token}

theorem bind_ok {p : Parser α} {a : α} (h : p src ts = .ok a us) (f : α → Parser β) :
    (p >>= f) src ts = f a src us := by
  show Parser.bind p f src ts = f a src us
  rw [Parser.bind, h]

theorem bind_fail {p : Parser α} {e : ParseError} (h : p src ts = .fail e us) (f : α → Parser β) :
    (p >>= f) src ts = .fail e us := by
  show Parser.bind p f src ts = .fail e us
  rw [Parser.bind, h]

theorem advance_cons (h : t.kind ≠ .eof) : advance src (t :: ts) = .ok t ts := by
  simp [advance, h]

theorem isNext_ok (kind : TokenKind) : isNext kind src (t :: ts) = .ok (t.kind == kind) (t :: ts) :=
  rfl

theorem accept?_hit {isKind : TokenKind → Bool} (h : isKind t.kind) (heof : t.kind ≠ .eof) :
    accept? isKind src (t :: ts) = .ok (some t) ts := by
  show (if isKind t.kind then some <$> advance else Pure.pure none : Parser _) src (t :: ts) = _
  rw [if_pos h]
  exact bind_ok (advance_cons heof) _

theorem accept?_miss {isKind : TokenKind → Bool} (h : isKind t.kind = false) :
    accept? isKind src (t :: ts) = .ok none (t :: ts) := by
  show (if isKind t.kind then some <$> advance else Pure.pure none : Parser _) src (t :: ts) = _
  rw [if_neg (by simp [h])]
  rfl

theorem accept_hit {kind : TokenKind} (h : t.kind = kind) (heof : kind ≠ .eof) :
    accept kind src (t :: ts) = .ok true ts :=
  bind_ok (accept?_hit (by simp [h]) (h ▸ heof)) _

theorem accept_miss {kind : TokenKind} (h : t.kind ≠ kind) :
    accept kind src (t :: ts) = .ok false (t :: ts) :=
  bind_ok (accept?_miss (by simp [h])) _

theorem expect_hit {kind : TokenKind} (what : String) (h : t.kind = kind) (heof : kind ≠ .eof) :
    expect kind what src (t :: ts) = .ok t ts := by
  have hnext : isNext kind src (t :: ts) = .ok true (t :: ts) := by
    show Parsed.ok (t.kind == kind) (t :: ts) = _
    simp [h]
  rw [expect, bind_ok hnext]
  simp [advance, h, heof]

theorem expect_miss {kind : TokenKind} (what : String) (h : t.kind ≠ kind) :
    expect kind what src (t :: ts) = .fail ⟨.missing what, t, ts.length + 1⟩ (t :: ts) := by
  rw [expect, bind_ok (isNext_ok kind)]
  simp [h, failHere]

end FirstToken

end Parser

open Owl.Parser

/-- A type: a name, and parameters between brackets. -/
def typeExpr : Nat → Parser TypeExpr
  | 0 => stop .bound
  | rounds + 1 => do
    let name ← expect .ident "type name"
    if ← accept .lbracket then
      let params ← commaSeparated (typeExpr rounds) rounds
      let _ ← expect .rbracket "']' after type parameters"
      return .mk name.text params none
    else return .mk name.text [] none

/-- A type behind a mark, or nothing. -/
def typeAfter? (mark : TokenKind) (rounds : Nat) : Parser (Option TypeExpr) := do
  if ← accept mark then some <$> typeExpr rounds else return none

/-- The parts of a dotted path, each behind its point. -/
def pathParts : Nat → Parser (List String)
  | 0 => stop .bound
  | rounds + 1 => do
    if ← accept .dot then
      let part ← expect .ident "module name"
      return part.text :: (← pathParts rounds)
    else return []

/-- A new name behind `as`, or nothing. -/
def alias? (what : String) : Parser (Option String) := do
  if ← accept .kwAs then return some (← expect .ident what).text else return none

def importedName : Parser (String × Option String) := do
  let name ← expect .ident "import name"
  return (name.text, ← alias? "alias")

/-- An import of a whole module, or of names from a dotted one. -/
def importDecl (rounds : Nat) : Parser Import := do
  let _ ← expect .kwFrom "'from'"
  let _ ← expect .kwPython "'python'"
  let parts ← pathParts rounds
  let _ ← expect .kwImport "'import'"
  if parts.isEmpty then
    let module ← expect .ident "module name"
    return .whole module.text (← alias? "alias name") none
  else
    return .names (".".intercalate parts) (← commaSeparated importedName rounds) none

def param (rounds : Nat) : Parser Param := do
  let name ← expect .ident "parameter name"
  return ⟨name.text, ← typeAfter? .colon rounds, none⟩

/-- The parameters of a function, up to the closing parenthesis. -/
def params (rounds : Nat) : Parser (List Param) := do
  if ← isNext .rparen then return [] else commaSeparated (param rounds) rounds

def patternBinding (name : String) : Parser String := do
  let _ ← expect .lparen ("'(' after " ++ name)
  let binding ← expect .ident "binding name"
  let _ ← expect .rparen "')' after binding"
  return binding.text

/-- A pattern.  Its span names no file. -/
def pattern : Parser Pattern := do
  let name ← expect .ident "pattern (Some, None, Ok, or Err)"
  let span := some (name.span Span.unknownFile)
  match name.text with
  | "None" => return .none span
  | "Some" => return .some (← patternBinding "Some") span
  | "Ok" => return .ok (← patternBinding "Ok") span
  | "Err" => return .err (← patternBinding "Err") span
  | other => failAt name (.unknownPattern other)

end Owl
