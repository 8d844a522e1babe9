/-
Scopes: the names a program knows at a place.

An `Env` is the innermost scope with the scopes around it.  Looking up goes from
the inside out; defining changes the innermost scope only; marking a variable as
used changes the scope that defines it.  A scope keeps its names in the order in
which they were first defined.
-/
import Owl.Ty

namespace Owl

/-- A table that keeps its keys in the order of their first entry. -/
abbrev Table (α : Type) := List (String × α)

namespace Table

variable {α : Type}

def get? : Table α → String → Option α
  | [], _ => none
  | (k, a) :: rest, key => if k == key then some a else get? rest key

/-- Enters a value: in the place of an older one, or at the end. -/
def put : Table α → String → α → Table α
  | [], key, value => [(key, value)]
  | (k, a) :: rest, key, value =>
    if k == key then (k, value) :: rest else (k, a) :: put rest key value

def update (f : α → α) : Table α → String → Table α
  | [], _ => []
  | (k, a) :: rest, key => if k == key then (k, f a) :: rest else (k, a) :: update f rest key

def has (t : Table α) (key : String) : Bool := (t.get? key).isSome

theorem get?_put (t : Table α) (key other : String) (value : α) :
    (t.put key value).get? other = if key = other then some value else t.get? other := by
  induction t with
  | nil => simp [put, get?]
  | cons row t ih =>
    obtain ⟨k, a⟩ := row
    by_cases hk : k = key
    · subst hk
      by_cases ho : k = other <;> simp [put, get?, ho]
    · by_cases ho : k = other
      · subst ho
        simp [put, get?, hk, Ne.symm hk]
      · simp [put, get?, hk, ho, ih]

theorem get?_update (f : α → α) (t : Table α) (key other : String) :
    (t.update f key).get? other = if key = other then (t.get? other).map f else t.get? other := by
  induction t with
  | nil => simp [update, get?]
  | cons row t ih =>
    obtain ⟨k, a⟩ := row
    by_cases hk : k = key
    · subst hk
      by_cases ho : k = other <;> simp [update, get?, ho]
    · by_cases ho : k = other
      · subst ho
        simp [update, get?, hk, Ne.symm hk]
      · simp [update, get?, hk, ho, ih]

end Table

/-- What is known of a variable. -/
structure Variable where
  type : Ty
  span? : Option Span := none
  isParam : Bool := false
  isMutable : Bool := false
  used : Bool := false
deriving DecidableEq, Repr, Inhabited

/-- The types of a function's parameters and of its value. -/
structure Signature where
  params : List Ty
  returns : Ty
deriving DecidableEq, Repr, Inhabited

/-- The names of one block. -/
structure Scope where
  vars : Table Variable := []
  fns : Table Signature := []
deriving DecidableEq, Repr, Inhabited

/-- Whether a name says that its variable may stay unused. -/
def isSilent (name : String) : Bool := name.toList.head? == some '_'

/-- The variables of a scope that were never used and do not say so. -/
def Scope.unused (s : Scope) : Table Variable :=
  s.vars.filter fun (name, v) => !v.used && !isSilent name

/-- Nested scopes: the innermost one and those around it, from the inside out. -/
structure Env where
  scope : Scope := {}
  outer : List Scope := []
deriving DecidableEq, Repr, Inhabited

namespace Env

def scopes (env : Env) : List Scope := env.scope :: env.outer

def defineVar (env : Env) (name : String) (v : Variable) : Env :=
  { env with scope := { env.scope with vars := env.scope.vars.put name v } }

def defineFn (env : Env) (name : String) (s : Signature) : Env :=
  { env with scope := { env.scope with fns := env.scope.fns.put name s } }

def var? (env : Env) (name : String) : Option Variable :=
  env.scopes.findSome? fun s => s.vars.get? name

def fn? (env : Env) (name : String) : Option Signature :=
  env.scopes.findSome? fun s => s.fns.get? name

/-- Marks the variable of a name in the first of some scopes that defines it. -/
def markIn (name : String) : List Scope → List Scope
  | [] => []
  | s :: rest =>
    if s.vars.has name then
      { s with vars := s.vars.update (fun v => { v with used := true }) name } :: rest
    else s :: markIn name rest

def markUsed (env : Env) (name : String) : Env :=
  match markIn name env.scopes with
  | [] => env
  | scope :: outer => ⟨scope, outer⟩

def push (env : Env) : Env := ⟨{}, env.scopes⟩

def pop? (env : Env) : Option Env :=
  match env.outer with
  | [] => none
  | scope :: outer => some ⟨scope, outer⟩

/-- Goes back to the scope around the innermost one, if there is one. -/
def pop (env : Env) : Env := env.pop?.getD env

@[simp] theorem pop_push (env : Env) : env.push.pop = env := rfl

end Env

end Owl
