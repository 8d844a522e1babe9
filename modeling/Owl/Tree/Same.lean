/-
Equality of trees that does not look at places.

`Program.same` holds of two programs that differ at most in their spans.
-/
import Owl.Tree

namespace Owl

mutual

def TypeExpr.same : TypeExpr → TypeExpr → Bool
  | .mk a as _, .mk b bs _ => a == b && sameTypes as bs

def sameTypes : List TypeExpr → List TypeExpr → Bool
  | [], [] => true
  | a :: as, b :: bs => a.same b && sameTypes as bs
  | _, _ => false

end

/-- Whether two values that may be missing are the same. -/
def sameOption {α : Type} (same : α → α → Bool) : Option α → Option α → Bool
  | none, none => true
  | some a, some b => same a b
  | _, _ => false

def sameList {α : Type} (same : α → α → Bool) : List α → List α → Bool
  | [], [] => true
  | a :: as, b :: bs => same a b && sameList same as bs
  | _, _ => false

def Param.same (a b : Param) : Bool :=
  a.name == b.name && sameOption TypeExpr.same a.type? b.type?

def Pattern.same : Pattern → Pattern → Bool
  | .some a _, .some b _ => a == b
  | .none _, .none _ => true
  | .ok a _, .ok b _ => a == b
  | .err a _, .err b _ => a == b
  | .unknown, .unknown => true
  | _, _ => false

mutual

def Expr.same : Expr → Expr → Bool
  | .int a _, .int b _ => a == b
  | .float a _, .float b _ => a == b
  | .string a _, .string b _ => a == b
  | .bool a _, .bool b _ => a == b
  | .name a _, .name b _ => a == b
  | .binary a f b _, .binary c g d _ => a.same c && f == g && b.same d
  | .unary f a _, .unary g b _ => f == g && a.same b
  | .call a as _, .call b bs _ => a.same b && sameExprs as bs
  | .field a f _, .field b g _ => a.same b && f == g
  | .propagate a _, .propagate b _ => a.same b
  | .list as _, .list bs _ => sameExprs as bs
  | .matching a as _, .matching b bs _ => a.same b && sameArms as bs
  | .stmt a, .stmt b => a.same b
  | .unknown, .unknown => true
  | _, _ => false
termination_by structural tree => tree

def sameExprs : List Expr → List Expr → Bool
  | [], [] => true
  | a :: as, b :: bs => a.same b && sameExprs as bs
  | _, _ => false
termination_by structural tree => tree

def sameArms : List Arm → List Arm → Bool
  | [], [] => true
  | ⟨p, a, _⟩ :: as, ⟨q, b, _⟩ :: bs => p.same q && a.same b && sameArms as bs
  | _, _ => false
termination_by structural tree => tree

def Stmt.same : Stmt → Stmt → Bool
  | .letVar a v t m _, .letVar b w u n _ =>
    a == b && v.same w && sameOption TypeExpr.same t u && m == n
  | .assign a v _, .assign b w _ => a == b && v.same w
  | .expr a _, .expr b _ => a.same b
  | .ret none _, .ret none _ => true
  | .ret (some a) _, .ret (some b) _ => a.same b
  | .whileLoop a as _, .whileLoop b bs _ => a.same b && sameStmts as bs
  | .forLoop x a as _, .forLoop y b bs _ => x == y && a.same b && sameStmts as bs
  | .loop as _, .loop bs _ => sameStmts as bs
  | .breakLoop _, .breakLoop _ => true
  | .continueLoop _, .continueLoop _ => true
  | .ifElse a as none _, .ifElse b bs none _ => a.same b && sameStmts as bs
  | .ifElse a as (some cs) _, .ifElse b bs (some ds) _ =>
    a.same b && sameStmts as bs && sameStmts cs ds
  | .fn a, .fn b => a.same b
  | .bare a, .bare b => a.same b
  | .unknown, .unknown => true
  | _, _ => false
termination_by structural tree => tree

def sameStmts : List Stmt → List Stmt → Bool
  | [], [] => true
  | a :: as, b :: bs => a.same b && sameStmts as bs
  | _, _ => false
termination_by structural tree => tree

def FnDecl.same : FnDecl → FnDecl → Bool
  | ⟨a, ps, as, t, _⟩, ⟨b, qs, bs, u, _⟩ =>
    a == b && sameList Param.same ps qs && sameStmts as bs && sameOption TypeExpr.same t u
termination_by structural tree => tree

end

def Import.same : Import → Import → Bool
  | .whole a x _, .whole b y _ => a == b && x == y
  | .names a xs _, .names b ys _ => a == b && xs == ys
  | .stmt a, .stmt b => a.same b
  | _, _ => false

def Program.same (a b : Program) : Bool :=
  sameList Import.same a.imports b.imports && sameList FnDecl.same a.functions b.functions &&
    sameList Stmt.same a.statements b.statements

end Owl
