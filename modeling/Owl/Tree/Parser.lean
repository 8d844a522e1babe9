/-
Reading tokens into a program.

* `expr` reads an expression: comparisons bind least, then sums, products, the
  minus sign, and calls, fields and `?` most; operators of one level group to the
  left;
* `statement` reads a statement, `fnDecl` a function;
* `Reading.ofTokens` reads item after item.  After a fault it passes over tokens
  to the next place where an item can start, and goes on;
* `parse` gives the program, or the first fault that was recorded.

Faults that follow a fault with no item between them are not recorded.
-/
import Owl.Tree.Grammar

namespace Owl

open Owl.Parser

/-! ### Expressions -/

def isComparison : TokenKind → Bool
  | .eq | .ne | .lt | .gt | .le | .ge => true
  | _ => false

/-- Whether a kind is a sum or difference. -/
def isAdditive : TokenKind → Bool
  | .plus | .minus => true
  | _ => false

/-- Whether a kind is a product, quotient or remainder. -/
def isMultiplicative : TokenKind → Bool
  | .star | .slash | .percent => true
  | _ => false

/-- The span that covers two, as far as they are known. -/
def mergeSpans? : Option Span → Option Span → Option Span
  | some a, some b => some (a.merge b)
  | some a, none => some a
  | none, b => b

/-- A span drawn out to cover another one, if that is known. -/
def extend (a : Span) : Option Span → Span
  | some b => a.merge b
  | none => a

/-- Operators of one level behind a left operand. -/
def binaryRest (isOp : TokenKind → Bool) (operand : Parser Expr) : Nat → Expr → Parser Expr
  | 0, _ => stop .bound
  | rounds + 1, left => do
    match ← accept? isOp with
    | none => return left
    | some op =>
      let right ← operand
      binaryRest isOp operand rounds
        (.binary left op.text right (mergeSpans? left.span? right.span?))

/-- Operands with operators of one level between them. -/
def binaryLevel (isOp : TokenKind → Bool) (rounds : Nat) (operand : Parser Expr) :
    Parser Expr := do
  binaryRest isOp operand rounds (← operand)

def unaryLevel (operand : Parser Expr) : Nat → Parser Expr
  | 0 => stop .bound
  | rounds + 1 => do
    match ← accept? (· == .minus) with
    | none => operand
    | some op =>
      let inner ← unaryLevel operand rounds
      return .unary op.text inner (some (extend (← spanOf op) inner.span?))

/-- The arguments of a call, up to the closing parenthesis. -/
def arguments (expr : Parser Expr) (rounds : Nat) : Parser (List Expr) := do
  if ← isNext .rparen then return [] else commaSeparated expr rounds

/-- Calls, fields and question marks behind an expression. -/
def suffixes (expr : Parser Expr) : Nat → Expr → Parser Expr
  | 0, _ => stop .bound
  | rounds + 1, base => do
    match ← accept? (· == .lparen) with
    | some opening =>
      let args ← arguments expr rounds
      let closing ← expect .rparen "')' after arguments"
      let first := base.span?.getD (← spanOf opening)
      suffixes expr rounds (.call base args (some (first.merge (← spanOf closing))))
    | none =>
      if ← accept .dot then
        let name ← expect .ident "field name after '.'"
        let span ← spanOf name
        suffixes expr rounds (.field base name.text (some ((base.span?.map (·.merge span)).getD span)))
      else
        match ← accept? (· == .question) with
        | some mark =>
          let span ← spanOf mark
          suffixes expr rounds (.propagate base (some ((base.span?.map (·.merge span)).getD span)))
        | none => return base

/-- The elements of a list after the first one; a comma may stand before the bracket. -/
def moreElements (expr : Parser Expr) : Nat → Parser (List Expr)
  | 0 => stop .bound
  | rounds + 1 => do
    if ← accept .comma then
      if ← isNext .rbracket then return []
      else
        let next ← expr
        return next :: (← moreElements expr rounds)
    else return []

/-- The elements of a list, up to the closing bracket. -/
def elements (expr : Parser Expr) (rounds : Nat) : Parser (List Expr) := do
  if ← isNext .rbracket then return []
  else
    let first ← expr
    return first :: (← moreElements expr rounds)

def listLiteral (expr : Parser Expr) (rounds : Nat) (opening : Token) : Parser Expr := do
  let elements ← elements expr rounds
  let closing ← expect .rbracket "']' after list elements"
  return .list elements (some ((← spanOf opening).merge (← spanOf closing)))

/-- An arm of a match, with a comma behind it if there is one. -/
def matchArm (expr : Parser Expr) : Parser Arm := do
  let pattern ← pattern
  let _ ← expect .fatArrow "'=>' after pattern"
  let body ← expr
  let _ ← accept .comma
  return ⟨pattern, body, none⟩

/-- A match behind its keyword.  Its span is the keyword's and names no file. -/
def matchExpr (expr : Parser Expr) (rounds : Nat) (keyword : Token) : Parser Expr := do
  let subject ← expr
  let _ ← expect .lbrace "'\x7b' after match expression"
  let arms ← manyUntil (· == .rbrace) (matchArm expr) rounds
  let _ ← expect .rbrace "'\x7d' after match arms"
  return .matching subject arms (some (keyword.span Span.unknownFile))

/-- The value of a numeral, or a stop. -/
def numeral {α : Type} : Except NumeralFault α → Parser α
  | .ok a => Pure.pure a
  | .error fault => stop (.numeral fault)

/-- A literal, a name, a list, a match, or an expression in parentheses. -/
def primary (expr : Parser Expr) (rounds : Nat) : Parser Expr := do
  let next ← peek
  match next.kind with
  | .int => do
    let t ← advance
    return .int (← numeral (Numeral.readInt t.text)) (some (← spanOf t))
  | .float => do
    let t ← advance
    return .float (← numeral (Numeral.readFloat t.text)) (some (← spanOf t))
  | .string => do
    let t ← advance
    return .string t.text (some (← spanOf t))
  | .kwTrue => do
    let t ← advance
    return .bool true (some (← spanOf t))
  | .kwFalse => do
    let t ← advance
    return .bool false (some (← spanOf t))
  | .kwMatch => do matchExpr expr rounds (← advance)
  | .lbracket => do listLiteral expr rounds (← advance)
  | .ident => do
    let t ← advance
    return .name t.text (some (← spanOf t))
  | .lparen => do
    let _ ← advance
    let inner ← expr
    let _ ← expect .rparen "')' after expression"
    return inner
  | _ => failHere (.unexpected next.text)

/-- A primary expression with its calls, fields and question marks. -/
def postfixExpr (expr : Parser Expr) (rounds : Nat) : Parser Expr := do
  suffixes expr rounds (← primary expr rounds)

/-- An expression; the bound goes down by one in each nested expression. -/
def expr : Nat → Parser Expr
  | 0 => stop .bound
  | rounds + 1 =>
    binaryLevel isComparison rounds <|
      binaryLevel isAdditive rounds <|
        binaryLevel isMultiplicative rounds <|
          unaryLevel (postfixExpr (expr rounds) rounds) rounds

/-! ### Statements -/

def block (statement : Parser Stmt) (rounds : Nat) : Parser (List Stmt) := do
  let _ ← expect .lbrace "'\x7b'"
  let body ← manyUntil (fun k => k == .rbrace || k == .eof) statement rounds
  let _ ← expect .rbrace "'\x7d'"
  return body

def letStmt (expr : Parser Expr) (rounds : Nat) : Parser Stmt := do
  let keyword ← expect .kwLet "'let'"
  let isMutable ← accept .kwMut
  let name ← expect .ident "variable name"
  let type? ← typeAfter? .colon rounds
  let _ ← expect .assign "'=' after variable name"
  let value ← expr
  return .letVar name.text value type? isMutable (some (extend (← spanOf keyword) value.span?))

def assignStmt (expr : Parser Expr) : Parser Stmt := do
  let name ← expect .ident "variable name"
  let _ ← expect .assign "'='"
  let value ← expr
  return .assign name.text value (some (extend (← spanOf name) value.span?))

/-- A return; it has no value only in front of a closing brace. -/
def returnStmt (expr : Parser Expr) : Parser Stmt := do
  let keyword ← expect .kwReturn "'return'"
  let span ← spanOf keyword
  if ← isNext .rbrace then return .ret none (some span)
  else
    let value ← expr
    return .ret (some value) (some (extend span value.span?))

def whileStmt (expr : Parser Expr) (block : Parser (List Stmt)) : Parser Stmt := do
  let keyword ← expect .kwWhile "'while'"
  let condition ← expr
  return .whileLoop condition (← block) (some (← spanOf keyword))

def forStmt (expr : Parser Expr) (block : Parser (List Stmt)) : Parser Stmt := do
  let keyword ← expect .kwFor "'for'"
  let item ← expect .ident "loop variable name"
  let _ ← expect .kwIn "'in' after loop variable"
  let collection ← expr
  return .forLoop item.text collection (← block) (some (← spanOf keyword))

def loopStmt (block : Parser (List Stmt)) : Parser Stmt := do
  let keyword ← expect .kwLoop "'loop'"
  return .loop (← block) (some (← spanOf keyword))

/-- The block behind `else`, or nothing. -/
def elseBlock? (block : Parser (List Stmt)) : Parser (Option (List Stmt)) := do
  if ← accept .kwElse then some <$> block else return none

def ifStmt (expr : Parser Expr) (block : Parser (List Stmt)) : Parser Stmt := do
  let keyword ← expect .kwIf "'if'"
  let condition ← expr
  let thenBody ← block
  let elseBody? ← elseBlock? block
  return .ifElse condition thenBody elseBody? (some (← spanOf keyword))

def exprStmt (expr : Parser Expr) : Parser Stmt := do
  let e ← expr
  return .expr e e.span?

/-- A statement; the bound goes down by one in each nested block. -/
def statement : Nat → Parser Stmt
  | 0 => stop .bound
  | rounds + 1 => do
    let expr := expr (rounds + 1)
    let block := block (statement rounds) rounds
    match (← peek).kind with
    | .kwLet => letStmt expr rounds
    | .kwReturn => returnStmt expr
    | .kwIf => ifStmt expr block
    | .kwWhile => whileStmt expr block
    | .kwFor => forStmt expr block
    | .kwLoop => loopStmt block
    | .kwBreak => do return .breakLoop (some (← spanOf (← advance)))
    | .kwContinue => do return .continueLoop (some (← spanOf (← advance)))
    | .ident => do if ← isSecond .assign then assignStmt expr else exprStmt expr
    | _ => exprStmt expr

def fnDecl (rounds : Nat) : Parser FnDecl := do
  let keyword ← expect .kwFn "'fn'"
  let name ← expect .ident "function name"
  let _ ← expect .lparen "'(' after function name"
  let params ← params rounds
  let _ ← expect .rparen "')' after parameters"
  let returns? ← typeAfter? .arrow rounds
  let body ← block (statement rounds) rounds
  return ⟨name.text, params, body, returns?, some (← spanOf keyword)⟩

/-! ### Programs -/

/-- What a program is made of, and the faults between. -/
inductive Item
  | importing (i : Import)
  | function (f : FnDecl)
  | stmt (s : Stmt)
  | fault (e : ParseError)
deriving Repr

def item (rounds : Nat) : Parser Item := do
  match (← peek).kind with
  | .kwFrom => do return .importing (← importDecl rounds)
  | .kwFn => do return .function (← fnDecl rounds)
  | _ => do return .stmt (← statement rounds)

/-- Whether an item can start at a kind, so that reading can go on there after a fault. -/
def isRestart : TokenKind → Bool
  | .kwFn | .kwLet | .kwReturn | .kwIf | .kwWhile | .kwFor | .kwLoop | .kwBreak | .kwContinue
  | .kwFrom | .rbrace => true
  | _ => false

/-- Passes over tokens up to the end, a restart, or the token behind a closing brace. -/
def skipTokens (src : TokenSource) : Token → List Token → Parsed Unit
  | previous, [] =>
    if src.last.kind == .eof || previous.kind == .rbrace || isRestart src.last.kind then .ok () []
    else .stop .pastEnd
  | previous, t :: ts =>
    if t.kind == .eof || previous.kind == .rbrace || isRestart t.kind then .ok () (t :: ts)
    else skipTokens src t ts

/-- Passes over at least one token, but not over the end mark. -/
def recover : Parser Unit := fun src ts =>
  match ts with
  | [] => .stop .pastEnd
  | t :: rest => if t.kind == .eof then .ok () (t :: rest) else skipTokens src t rest

/-- The items that were read, why reading stopped early, and the tokens that are left. -/
structure Reading where
  items : List Item
  stop? : Option ParseStop
  rest : List Token
deriving Repr

namespace Reading

/-- Reads items up to the end mark; each round passes at least one token. -/
def itemsFrom (src : TokenSource) (bound : Nat) : Nat → List Token → Reading
  | 0, ts => ⟨[], some .bound, ts⟩
  | rounds + 1, ts =>
    if (ts.headD src.last).kind == .eof then ⟨[], none, ts⟩
    else
      match item bound src ts with
      | .ok item rest =>
        let more := itemsFrom src bound rounds rest
        { more with items := item :: more.items }
      | .stop cause => ⟨[], some cause, ts⟩
      | .fail e rest =>
        match recover src rest with
        | .ok _ rest =>
          let more := itemsFrom src bound rounds rest
          { more with items := .fault e :: more.items }
        | .fail _ rest => ⟨[.fault e], none, rest⟩
        | .stop cause => ⟨[.fault e], some cause, rest⟩

def ofTokens (file : String) (ts : List Token) : Reading :=
  match ts.getLast? with
  | none => ⟨[], some .pastEnd, []⟩
  | some last =>
    let bound := 2 * (ts.length + 1)
    itemsFrom ⟨file, last⟩ bound bound ts

/-- The faults that are recorded: those that do not follow another one directly. -/
def recorded : Bool → List Item → List ParseError
  | _, [] => []
  | afterFault, .fault e :: rest =>
    if afterFault then recorded true rest else e :: recorded true rest
  | _, _ :: rest => recorded false rest

def errors (r : Reading) : List ParseError := recorded false r.items

def program (r : Reading) : Program where
  imports := r.items.filterMap fun | .importing i => some i | _ => none
  functions := r.items.filterMap fun | .function f => some f | _ => none
  statements := r.items.filterMap fun | .stmt s => some s | _ => none

end Reading

/-- Why there is no program. -/
inductive ParseFailure
  | fault (e : ParseError)
  | stop (cause : ParseStop)
deriving DecidableEq, Repr

/-- The program of a reading, or why there is none: a stop, or else the first recorded fault. -/
def Reading.result (r : Reading) : Except ParseFailure Program :=
  match r.stop?, r.errors with
  | some cause, _ => .error (.stop cause)
  | none, e :: _ => .error (.fault e)
  | none, [] => .ok r.program

def parse (file : String) (ts : List Token) : Except ParseFailure Program :=
  (Reading.ofTokens file ts).result

end Owl
