/-
Program trees.

A tree keeps what the source says: names, operators and literals, each with the
span it was read from, if it was read.  Trees need not come from a text, so an
operator is any text, spans may be missing, and the constructors `unknown`,
`Expr.stmt`, `Stmt.fn`, `Stmt.bare` and `Import.stmt` give a place to things that
stand where the grammar has no place for them.
-/
import Owl.Number.Binary64
import Owl.Span

namespace Owl

/-- A type as written: a name and its parameters. -/
inductive TypeExpr
  | mk (name : String) (params : List TypeExpr) (span? : Option Span)
deriving Repr, Inhabited

namespace TypeExpr

def name : TypeExpr → String
  | mk name _ _ => name

def params : TypeExpr → List TypeExpr
  | mk _ params _ => params

def span? : TypeExpr → Option Span
  | mk _ _ span? => span?

mutual

def text : TypeExpr → String
  | mk name [] _ => name
  | mk name (p :: ps) _ => name ++ "[" ++ p.text ++ restText ps ++ "]"

/-- The parameters after the first one, each behind a comma. -/
def restText : List TypeExpr → String
  | [] => ""
  | p :: ps => ", " ++ p.text ++ restText ps

end

end TypeExpr

/-- A parameter of a function. -/
structure Param where
  name : String
  type? : Option TypeExpr
  span? : Option Span
deriving Repr, Inhabited

/-- What an arm of a match asks of its subject. -/
inductive Pattern
  | some (binding : String) (span? : Option Span)
  | none (span? : Option Span)
  | ok (binding : String) (span? : Option Span)
  | err (binding : String) (span? : Option Span)
  | unknown
deriving DecidableEq, Repr, Inhabited

mutual

/-- An expression. -/
inductive Expr
  | int (value : Int) (span? : Option Span)
  | float (value : Binary64) (span? : Option Span)
  | string (value : String) (span? : Option Span)
  | bool (value : Bool) (span? : Option Span)
  | name (name : String) (span? : Option Span)
  | binary (left : Expr) (op : String) (right : Expr) (span? : Option Span)
  | unary (op : String) (operand : Expr) (span? : Option Span)
  | call (callee : Expr) (args : List Expr) (span? : Option Span)
  | field (object : Expr) (field : String) (span? : Option Span)
  /-- The operand's success value, or an early return of its failure. -/
  | propagate (operand : Expr) (span? : Option Span)
  | list (elements : List Expr) (span? : Option Span)
  | matching (subject : Expr) (arms : List Arm) (span? : Option Span)
  /-- A statement in the place of an expression. -/
  | stmt (s : Stmt)
  /-- An expression of no known kind. -/
  | unknown

/-- A statement. -/
inductive Stmt
  | letVar (name : String) (value : Expr) (type? : Option TypeExpr) (isMutable : Bool)
      (span? : Option Span)
  | assign (name : String) (value : Expr) (span? : Option Span)
  | expr (e : Expr) (span? : Option Span)
  | ret (value? : Option Expr) (span? : Option Span)
  | whileLoop (condition : Expr) (body : List Stmt) (span? : Option Span)
  | forLoop (item : String) (collection : Expr) (body : List Stmt) (span? : Option Span)
  | loop (body : List Stmt) (span? : Option Span)
  | breakLoop (span? : Option Span)
  | continueLoop (span? : Option Span)
  | ifElse (condition : Expr) (thenBody : List Stmt) (elseBody? : Option (List Stmt))
      (span? : Option Span)
  /-- A function in the place of a statement. -/
  | fn (decl : FnDecl)
  /-- An expression in the place of a statement. -/
  | bare (e : Expr)
  /-- A statement of no known kind. -/
  | unknown

/-- An arm of a match. -/
structure Arm where
  pattern : Pattern
  body : Expr
  span? : Option Span

/-- A function. -/
structure FnDecl where
  name : String
  params : List Param
  body : List Stmt
  returns? : Option TypeExpr
  span? : Option Span

end

deriving instance Repr, Inhabited for Expr, Stmt, Arm, FnDecl

/-- An import of names from outside. -/
inductive Import
  | whole (module : String) (alias? : Option String) (span? : Option Span)
  | names (module : String) (names : List (String × Option String)) (span? : Option Span)
  /-- A statement in the place of an import. -/
  | stmt (s : Stmt)
deriving Repr, Inhabited

/-- A program: its imports, functions and top-level statements, each in source order. -/
structure Program where
  imports : List Import
  functions : List FnDecl
  statements : List Stmt
  span? : Option Span := none
deriving Repr, Inhabited

namespace Pattern

def name : Pattern → String
  | some _ _ => "Some"
  | none _ => "None"
  | ok _ _ => "Ok"
  | err _ _ => "Err"
  | unknown => "Unknown"

def span? : Pattern → Option Span
  | some _ span? => span?
  | none span? => span?
  | ok _ span? => span?
  | err _ span? => span?
  | unknown => Option.none

end Pattern

mutual

def Expr.span? : Expr → Option Span
  | .int _ span? => span?
  | .float _ span? => span?
  | .string _ span? => span?
  | .bool _ span? => span?
  | .name _ span? => span?
  | .binary _ _ _ span? => span?
  | .unary _ _ span? => span?
  | .call _ _ span? => span?
  | .field _ _ span? => span?
  | .propagate _ span? => span?
  | .list _ span? => span?
  | .matching _ _ span? => span?
  | .stmt s => s.span?
  | .unknown => none

def Stmt.span? : Stmt → Option Span
  | .letVar _ _ _ _ span? => span?
  | .assign _ _ span? => span?
  | .expr _ span? => span?
  | .ret _ span? => span?
  | .whileLoop _ _ span? => span?
  | .forLoop _ _ _ span? => span?
  | .loop _ span? => span?
  | .breakLoop span? => span?
  | .continueLoop span? => span?
  | .ifElse _ _ _ span? => span?
  | .fn ⟨_, _, _, _, span?⟩ => span?
  | .bare e => e.span?
  | .unknown => none

end

/-- Where an expression stands, or the dummy place. -/
def Expr.place (e : Expr) : Span := e.span?.getD .dummy

/-- Where a statement stands, or the dummy place. -/
def Stmt.place (s : Stmt) : Span := s.span?.getD .dummy

/-- Whether a statement is a choice, which can stand for a value. -/
def Stmt.isChoice : Stmt → Bool
  | .ifElse .. => true
  | _ => false

/-- What a statement is there for: what it does, or the value that a block ends with. -/
inductive Use
  | effect
  | value
deriving DecidableEq, Repr

namespace Import

/-- The names that an import brings into scope.  An empty alias counts as none. -/
def bound : Import → List String
  | whole module alias? _ => [pick module alias?]
  | names _ pairs _ => pairs.map fun (name, alias?) => pick name alias?
  | stmt _ => []
where
  pick (name : String) : Option String → String
    | some short => if short.isEmpty then name else short
    | none => name

end Import

end Owl
