/-
Target code: Python statements, and their layout in lines.

Conditions and values are texts; blocks are lists of statements.  `Code.lines`
lays a statement out, each block four blanks deeper than its header.
-/

namespace Owl

/-- A statement of the target. -/
inductive Code
  | assign (name value : String)
  | eval (value : String)
  | ret (value? : Option String)
  | breakLoop
  | continueLoop
  | pass
  /-- A choice; an empty second block stands for none. -/
  | branch (condition : String) (thenBody elseBody : List Code)
  | whileLoop (condition : String) (body : List Code)
  | forLoop (item collection : String) (body : List Code)
deriving Repr, Inhabited

namespace Code

def line (depth : Nat) (s : String) : String :=
  String.ofList (List.replicate (4 * depth) ' ') ++ s

mutual

def lines (depth : Nat) : Code → List String
  | assign name value => [line depth (name ++ " = " ++ value)]
  | eval value => [line depth value]
  | ret none => [line depth "return"]
  | ret (some value) => [line depth ("return " ++ value)]
  | breakLoop => [line depth "break"]
  | continueLoop => [line depth "continue"]
  | pass => [line depth "pass"]
  | branch condition thenBody [] =>
    line depth ("if " ++ condition ++ ":") :: blockLines (depth + 1) thenBody
  | branch condition thenBody (s :: rest) =>
    line depth ("if " ++ condition ++ ":") :: (blockLines (depth + 1) thenBody ++
      line depth "else:" :: (s.lines (depth + 1) ++ blockLines (depth + 1) rest))
  | whileLoop condition body =>
    line depth ("while " ++ condition ++ ":") :: blockLines (depth + 1) body
  | forLoop item collection body =>
    line depth ("for " ++ item ++ " in " ++ collection ++ ":") :: blockLines (depth + 1) body

def blockLines (depth : Nat) : List Code → List String
  | [] => []
  | s :: rest => s.lines depth ++ blockLines depth rest

end

def suite : List Code → List Code
  | [] => [pass]
  | s :: rest => s :: rest

end Code

/-- A function of the target. -/
structure CodeFn where
  name : String
  params : List String
  body : List Code
deriving Repr, Inhabited

/-- The lines of a function, whose header is never indented. -/
def CodeFn.lines (depth : Nat) (f : CodeFn) : List String :=
  ("def " ++ f.name ++ "(" ++ ", ".intercalate f.params ++ "):") ::
    Code.blockLines (depth + 1) f.body

/-- A program of the target. -/
structure CodeFile where
  /-- Whether the classes of results are defined. -/
  hasRuntime : Bool
  imports : List String
  functions : List CodeFn
  statements : List Code
deriving Repr, Inhabited

namespace CodeFile

def runtimeLines : List String := [
  "# Result type runtime",
  "class Ok:",
  "    def __init__(self, value):",
  "        self.value = value",
  "    def __repr__(self):",
  "        return f\"Ok(\x7bself.value!r\x7d)\"",
  "",
  "class Err:",
  "    def __init__(self, error):",
  "        self.error = error",
  "    def __repr__(self):",
  "        return f\"Err(\x7bself.error!r\x7d)\""]

def mainLines : List String :=
  ["", "if __name__ == \"__main__\":", Code.line 1 "main()"]

/-- The lines of a program: the classes of results, imports, functions, statements and the call of
the main function, as far as there are any. -/
def lines (depth : Nat) (f : CodeFile) : List String :=
  (if f.hasRuntime then runtimeLines ++ [""] else []) ++
    (if f.imports.isEmpty then [] else f.imports ++ [""]) ++
    f.functions.flatMap (fun fn => fn.lines depth ++ [""]) ++
    Code.blockLines depth f.statements ++
    (if f.functions.any (·.name == "main") then mainLines else [])

def text (depth : Nat) (f : CodeFile) : String :=
  "\n".intercalate (f.lines depth)

end CodeFile

end Owl
