/-
Expressions that are emitted as they would be written.

Of some expressions the emitted code is a text of the source language itself.
Here are these expressions, their code and the tokens of that code.

* `Expr.code`, `Expr.tokens` — the characters and the tokens of the code.
-/
import Owl.Code.Emit
import Owl.Proofs.Writing

namespace Owl

/-- The texts of the operators between two operands. -/
def binaryOps : List String := ["==", "!=", "<", ">", "<=", ">=", "+", "-", "*", "/", "%"]

/-- The expressions that are emitted as they would be written: integers that are not negative and
not too long to be read, strings within a line, names, operators, calls of anything but the name of
a function that every program knows, fields and lists. -/
inductive Expr.Plain : Expr → Prop
  | int {value : Int} {span? : Option Span} (nonneg : 0 ≤ value)
      (short : (toString value).length ≤ Numeral.digitLimit) : Plain (.int value span?)
  | string {value : String} {span? : Option Span} (inLine : '\n' ∉ value.toList) :
      Plain (.string value span?)
  | name {name : String} {span? : Option Span} (isName : IsName name.toList) :
      Plain (.name name span?)
  | binary {left right : Expr} {op : String} {span? : Option Span} (isLeft : Plain left)
      (isOp : op ∈ binaryOps) (isRight : Plain right) : Plain (.binary left op right span?)
  | unary {operand : Expr} {span? : Option Span} (isOperand : Plain operand) :
      Plain (.unary "-" operand span?)
  | call {callee : Expr} {args : List Expr} {span? : Option Span} (isCallee : Plain callee)
      (unknown : ∀ name span?, callee = .name name span? → Builtin.find? name = none)
      (areArgs : ∀ a ∈ args, Plain a) : Plain (.call callee args span?)
  | field {object : Expr} {field : String} {span? : Option Span} (isObject : Plain object)
      (isName : IsName field.toList) : Plain (.field object field span?)
  | list {elements : List Expr} {span? : Option Span} (areElements : ∀ e ∈ elements, Plain e) :
      Plain (.list elements span?)

/-! ### Code -/

mutual

def Expr.code : Expr → List Char
  | .int value _ => (toString value).toList
  | .string value _ => '"' :: (value.toList.flatMap stringCode.escape ++ ['"'])
  | .name name _ => name.toList
  | .binary left op right _ =>
    '(' :: (left.code ++ ' ' :: (op.toList ++ ' ' :: (right.code ++ [')'])))
  | .unary op operand _ => '(' :: (op.toList ++ (operand.code ++ [')']))
  | .call callee args _ => callee.code ++ '(' :: (listCode args ++ [')'])
  | .field object field _ => object.code ++ '.' :: field.toList
  | .list elements _ => '[' :: (listCode elements ++ [']'])
  | _ => []

def listCode : List Expr → List Char
  | [] => []
  | e :: es => e.code ++ restCode es

/-- The characters of the expressions after the first one, each behind a comma. -/
def restCode : List Expr → List Char
  | [] => []
  | e :: es => ',' :: ' ' :: (e.code ++ restCode es)

end

def Token.bare (kind : TokenKind) (text : String) : Token := ⟨kind, text, .start⟩

/-- A keyword, operator or delimiter without its place. -/
def Token.mark (kind : TokenKind) : Token := .bare kind (kind.fixedText?.getD "")

@[simp] theorem Token.bare_kind (kind : TokenKind) (text : String) :
    (Token.bare kind text).kind = kind := rfl

@[simp] theorem Token.mark_kind (kind : TokenKind) : (Token.mark kind).kind = kind := rfl

mutual

/-- The tokens of the code of a plain expression, without their places. -/
def Expr.tokens : Expr → List Token
  | .int value _ => [.bare .int (toString value)]
  | .string value _ => [.bare .string value]
  | .name name _ => [.bare .ident name]
  | .binary left op right _ =>
    .mark .lparen ::
      (left.tokens ++ .bare (operatorKind op) op :: (right.tokens ++ [.mark .rparen]))
  | .unary op operand _ =>
    .mark .lparen :: .bare (operatorKind op) op :: (operand.tokens ++ [.mark .rparen])
  | .call callee args _ => callee.tokens ++ .mark .lparen :: (listTokens args ++ [.mark .rparen])
  | .field object field _ => object.tokens ++ [.mark .dot, .bare .ident field]
  | .list elements _ => .mark .lbracket :: (listTokens elements ++ [.mark .rbracket])
  | _ => []

def listTokens : List Expr → List Token
  | [] => []
  | e :: es => e.tokens ++ restTokens es

/-- The tokens of the expressions after the first one, each behind a comma. -/
def restTokens : List Expr → List Token
  | [] => []
  | e :: es => .mark .comma :: (e.tokens ++ restTokens es)

end

/-! ### Emission -/

theorem commaList_code (es : List Expr) :
    commaList (es.map fun e => String.ofList e.code) = String.ofList (listCode es) := by
  rw [commaList, ← String.toList_inj, String.toList_intercalate, String.toList_ofList]
  cases es with
  | nil => rfl
  | cons e es =>
    rw [listCode]
    induction es generalizing e with
    | nil => simp [restCode]
    | cons e' es ih =>
      have hmore := ih e'
      simp only [List.map_cons] at hmore ⊢
      rw [List.intercalate_cons_cons, hmore, restCode]
      simp

theorem emitExprs_plain {es : List Expr}
    (h : ∀ e ∈ es, emitExpr e = pure (String.ofList e.code)) :
    emitExprs es = pure (es.map fun e => String.ofList e.code) := by
  induction es with
  | nil => rfl
  | cons e es ih =>
    rw [emitExprs, h e (List.mem_cons_self ..), ih fun a ha => h a (List.mem_cons_of_mem _ ha)]
    rfl

/-- A plain expression is emitted as its `code`. -/
theorem emitExpr_plain {e : Expr} (h : e.Plain) : emitExpr e = pure (String.ofList e.code) := by
  induction h with
  | int | name => simp [emitExpr, Expr.code]
  | string => simp [emitExpr, Expr.code, stringCode, String.append_assoc]
  | binary _ _ _ ihl ihr => simp [emitExpr, Expr.code, ihl, ihr, String.append_assoc]
  | unary _ ih =>
    rw [emitExpr, ih, pure_bind, Expr.code]
    exact congrArg pure (String.toList_inj.mp (by simp))
  | @call callee args span? _ unknown _ ih ihs =>
    have hargs := emitExprs_plain ihs
    have hcode : (Expr.call callee args span?).code =
        callee.code ++ '(' :: (listCode args ++ [')']) := by rw [Expr.code]
    -- a call of a name is emitted by another rule than any other call
    cases callee with
    | name name span? =>
      simp [emitExpr, Expr.code, hargs, namedCallCode, unknown name span? rfl, commaList_code,
        String.append_assoc]
    | _ =>
      rw [emitExpr, ih, hargs, pure_bind, pure_bind, commaList_code, hcode]
      · simp [String.append_assoc]
      · simp
  | field _ _ ih => simp [emitExpr, Expr.code, ih, String.append_assoc]
  | list _ ihs =>
    simp [emitExpr, Expr.code, emitExprs_plain ihs, commaList_code, String.append_assoc]

end Owl
