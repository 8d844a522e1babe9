/-
Outlines: a program tree as indented lines.

Declarations, calls, operators, names and literals have lines of their own form;
every other node is shown in full on one line.
-/
import Owl.Tree.Dump

namespace Owl

/-- A line at a depth of indentation, two blanks for each step. -/
def outlineLine (depth : Int) (s : String) : String :=
  String.ofList (List.replicate (2 * depth.toNat) ' ') ++ s

/-- Names with their new names, separated by commas.  An empty new name counts as none. -/
def importNames (names : List (String × Option String)) : String :=
  ", ".intercalate (names.map fun (name, alias?) =>
    match alias? with
    | some short => if short.isEmpty then name else name ++ " as " ++ short
    | none => name)

mutual

def Expr.outline (depth : Int) : Expr → List String
  | .call callee args _ =>
    outlineLine depth "Call:" :: callee.outline (depth + 1) ++
      (outlineLine depth "  Args:" :: outlineExprs (depth + 2) args)
  | .binary left op right _ =>
    outlineLine depth ("BinaryOp: " ++ op) :: left.outline (depth + 1) ++ right.outline (depth + 1)
  | .name name _ => [outlineLine depth ("Ident: " ++ name)]
  | .int value _ => [outlineLine depth ("Int: " ++ toString value)]
  | .float value _ => [outlineLine depth ("Float: " ++ value.text)]
  | .string value _ => [outlineLine depth ("String: " ++ Text.quoted value)]
  | .bool value _ => [outlineLine depth ("Bool: " ++ boolText value)]
  | .field object field _ =>
    outlineLine depth ("FieldAccess: ." ++ field) :: object.outline (depth + 1)
  | .stmt s => s.outline depth
  | e => [outlineLine depth (e.kindName ++ ": " ++ e.dump.render)]

def outlineExprs (depth : Int) : List Expr → List String
  | [] => []
  | e :: es => e.outline depth ++ outlineExprs depth es

def Stmt.outline (depth : Int) : Stmt → List String
  | .letVar name value _ _ _ =>
    outlineLine depth ("LetStmt: " ++ name ++ " =") :: value.outline (depth + 1)
  | .expr e _ => outlineLine depth "ExprStmt:" :: e.outline (depth + 1)
  | .fn f => f.outline depth
  | .bare e => e.outline depth
  | s => [outlineLine depth (s.kindName ++ ": " ++ s.dump.render)]

def outlineStmts (depth : Int) : List Stmt → List String
  | [] => []
  | s :: ss => s.outline depth ++ outlineStmts depth ss

def FnDecl.outline (depth : Int) : FnDecl → List String
  | ⟨name, params, body, _, _⟩ =>
    outlineLine depth
      ("FnDecl: " ++ name ++ "(" ++ ", ".intercalate (params.map (·.name)) ++ ")") ::
      outlineStmts (depth + 1) body

end

def Import.outline (depth : Int) : Import → List String
  | .whole module alias? _ =>
    let ending := match alias? with
      | some short => if short.isEmpty then "" else " as " ++ short
      | none => ""
    [outlineLine depth ("PythonImport: " ++ module ++ ending)]
  | .names module pairs _ =>
    [outlineLine depth ("PythonFromImport: from " ++ module ++ " import " ++ importNames pairs)]
  | .stmt s => s.outline depth

def Program.outline (depth : Int) (p : Program) : List String :=
  outlineLine depth "Program:" ::
    outlineLine depth "  Imports:" :: p.imports.flatMap (Import.outline (depth + 2)) ++
    (outlineLine depth "  Functions:" :: p.functions.flatMap (FnDecl.outline (depth + 2))) ++
    (outlineLine depth "  Statements:" :: p.statements.flatMap (Stmt.outline (depth + 2)))

end Owl
