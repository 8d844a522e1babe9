/-
Values as records: the form in which trees are shown in full.

A `Dump` is a value with named fields, lists and plain data.  `Dump.render` writes
it on one line, records as `Name(field=value, ...)`.
-/
import Owl.Number.Decimal
import Owl.Text.Quoted
import Owl.Tree

namespace Owl

/-- A value with named fields. -/
inductive Dump
  | absent
  | bool (b : Bool)
  | int (i : Int)
  | float (x : Binary64)
  | text (s : String)
  | span (s : Span)
  | list (xs : List Dump)
  | tuple (xs : List Dump)
  | record (name : String) (fields : List (String × Dump))
deriving Repr, Inhabited

def boolText (b : Bool) : String := if b then "True" else "False"

def Position.render (p : Position) : String :=
  "Position(line=" ++ toString p.line ++ ", column=" ++ toString p.column ++ ", offset=0)"

def Span.render (s : Span) : String :=
  "Span(start=" ++ s.start.render ++ ", end=" ++ s.stop.render ++ ", filename=" ++
    Text.quoted s.file ++ ")"

namespace Dump

mutual

def render : Dump → String
  | absent => "None"
  | bool b => boolText b
  | int i => toString i
  | float x => x.text
  | text s => Text.quoted s
  | span s => s.render
  | list xs => "[" ++ ", ".intercalate (renderAll xs) ++ "]"
  | tuple xs => "(" ++ ", ".intercalate (renderAll xs) ++ ")"
  | record name fields => name ++ "(" ++ ", ".intercalate (renderFields fields) ++ ")"

def renderAll : List Dump → List String
  | [] => []
  | x :: xs => x.render :: renderAll xs

def renderFields : List (String × Dump) → List String
  | [] => []
  | (name, x) :: xs => (name ++ "=" ++ x.render) :: renderFields xs

end

def optional {α : Type} (f : α → Dump) : Option α → Dump
  | none => absent
  | some a => f a

def spanField (s? : Option Span) : String × Dump := ("span", optional span s?)

end Dump

open Dump (optional spanField)

mutual

def TypeExpr.dump : TypeExpr → Dump
  | .mk name params span? =>
    .record "TypeAnnotation" [("name", .text name), ("params", .list (dumpTypes params)),
      spanField span?]

def dumpTypes : List TypeExpr → List Dump
  | [] => []
  | t :: ts => t.dump :: dumpTypes ts

end

def Param.dump (p : Param) : Dump :=
  .record "Parameter" [("name", .text p.name), ("type_annotation", optional TypeExpr.dump p.type?),
    spanField p.span?]

def Pattern.dump : Pattern → Dump
  | .some binding span? => .record "SomePattern" [("binding", .text binding), spanField span?]
  | .none span? => .record "NonePattern" [spanField span?]
  | .ok binding span? => .record "OkPattern" [("binding", .text binding), spanField span?]
  | .err binding span? => .record "ErrPattern" [("binding", .text binding), spanField span?]
  | .unknown => .record "Pattern" []

mutual

def Expr.kindName : Expr → String
  | .int .. => "IntLiteral"
  | .float .. => "FloatLiteral"
  | .string .. => "StringLiteral"
  | .bool .. => "BoolLiteral"
  | .name .. => "Identifier"
  | .binary .. => "BinaryOp"
  | .unary .. => "UnaryOp"
  | .call .. => "Call"
  | .field .. => "FieldAccess"
  | .propagate .. => "TryExpr"
  | .list .. => "ListLiteral"
  | .matching .. => "MatchExpr"
  | .stmt s => s.kindName
  | .unknown => "Expr"

def Stmt.kindName : Stmt → String
  | .letVar .. => "LetStmt"
  | .assign .. => "AssignStmt"
  | .expr .. => "ExprStmt"
  | .ret .. => "ReturnStmt"
  | .whileLoop .. => "WhileStmt"
  | .forLoop .. => "ForInStmt"
  | .loop .. => "LoopStmt"
  | .breakLoop .. => "BreakStmt"
  | .continueLoop .. => "ContinueStmt"
  | .ifElse .. => "IfStmt"
  | .fn .. => "FnDecl"
  | .bare e => e.kindName
  | .unknown => "Stmt"

end

mutual

def Expr.dump : Expr → Dump
  | .int value span? => .record "IntLiteral" [("value", .int value), spanField span?]
  | .float value span? => .record "FloatLiteral" [("value", .float value), spanField span?]
  | .string value span? => .record "StringLiteral" [("value", .text value), spanField span?]
  | .bool value span? => .record "BoolLiteral" [("value", .bool value), spanField span?]
  | .name name span? => .record "Identifier" [("name", .text name), spanField span?]
  | .binary left op right span? =>
    .record "BinaryOp" [("left", left.dump), ("operator", .text op), ("right", right.dump),
      spanField span?]
  | .unary op operand span? =>
    .record "UnaryOp" [("operator", .text op), ("operand", operand.dump), spanField span?]
  | .call callee args span? =>
    .record "Call" [("callee", callee.dump), ("arguments", .list (dumpExprs args)),
      spanField span?]
  | .field object field span? =>
    .record "FieldAccess" [("object", object.dump), ("field", .text field), spanField span?]
  | .propagate operand span? => .record "TryExpr" [("operand", operand.dump), spanField span?]
  | .list elements span? =>
    .record "ListLiteral" [("elements", .list (dumpExprs elements)), spanField span?]
  | .matching subject arms span? =>
    .record "MatchExpr" [("subject", subject.dump), ("arms", .list (dumpArms arms)),
      spanField span?]
  | .stmt s => s.dump
  | .unknown => .record "Expr" []

def dumpExprs : List Expr → List Dump
  | [] => []
  | e :: es => e.dump :: dumpExprs es

def dumpArms : List Arm → List Dump
  | [] => []
  | ⟨pattern, body, span?⟩ :: arms =>
    .record "MatchArm" [("pattern", pattern.dump), ("body", body.dump), spanField span?] ::
      dumpArms arms

def Stmt.dump : Stmt → Dump
  | .letVar name value type? isMutable span? =>
    .record "LetStmt" [("name", .text name), ("value", value.dump),
      ("type_annotation", optional TypeExpr.dump type?), ("mutable", .bool isMutable),
      spanField span?]
  | .assign name value span? =>
    .record "AssignStmt" [("name", .text name), ("value", value.dump), spanField span?]
  | .expr e span? => .record "ExprStmt" [("expr", e.dump), spanField span?]
  | .ret none span? => .record "ReturnStmt" [("value", .absent), spanField span?]
  | .ret (some e) span? => .record "ReturnStmt" [("value", e.dump), spanField span?]
  | .whileLoop condition body span? =>
    .record "WhileStmt" [("condition", condition.dump), ("body", .list (dumpStmts body)),
      spanField span?]
  | .forLoop item collection body span? =>
    .record "ForInStmt" [("item_name", .text item), ("collection", collection.dump),
      ("body", .list (dumpStmts body)), spanField span?]
  | .loop body span? => .record "LoopStmt" [("body", .list (dumpStmts body)), spanField span?]
  | .breakLoop span? => .record "BreakStmt" [spanField span?]
  | .continueLoop span? => .record "ContinueStmt" [spanField span?]
  | .ifElse condition thenBody none span? =>
    .record "IfStmt" [("condition", condition.dump), ("then_body", .list (dumpStmts thenBody)),
      ("else_body", .absent), spanField span?]
  | .ifElse condition thenBody (some elseBody) span? =>
    .record "IfStmt" [("condition", condition.dump), ("then_body", .list (dumpStmts thenBody)),
      ("else_body", .list (dumpStmts elseBody)), spanField span?]
  | .fn f => f.dump
  | .bare e => e.dump
  | .unknown => .record "Stmt" []

def dumpStmts : List Stmt → List Dump
  | [] => []
  | s :: ss => s.dump :: dumpStmts ss

def FnDecl.dump : FnDecl → Dump
  | ⟨name, params, body, returns?, span?⟩ =>
    .record "FnDecl" [("name", .text name), ("params", .list (params.map Param.dump)),
      ("body", .list (dumpStmts body)), ("return_type", optional TypeExpr.dump returns?),
      spanField span?]

end

def Import.dump : Import → Dump
  | .whole module alias? span? =>
    .record "PythonImport" [("module", .text module), ("alias", optional .text alias?),
      spanField span?]
  | .names module pairs span? =>
    .record "PythonFromImport" [("module", .text module),
      ("names", .list (pairs.map fun (name, alias?) =>
        .tuple [.text name, optional .text alias?])), spanField span?]
  | .stmt s => s.dump

def Program.dump (p : Program) : Dump :=
  .record "Program" [("imports", .list (p.imports.map Import.dump)),
    ("functions", .list (p.functions.map FnDecl.dump)),
    ("statements", .list (p.statements.map Stmt.dump)), spanField p.span?]

end Owl
