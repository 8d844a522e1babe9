/-
Scopes as separate tables.

A chain of scopes keeps the types of variables in one table and all that is known of
them in another, for callers that ask for one or the other.  It goes from the current
scope out, and is worked on by single operations, as an `Env` is.
-/
import Owl.Scope

namespace Owl

/-- What can be done with scopes. -/
inductive ScopeOp
  | defineVar (name : String) (v : Variable)
  | defineFn (name : String) (s : Signature)
  | markUsed (name : String)
  | enter
  | leave
deriving DecidableEq, Repr

/-- The scopes after an operation; a new variable is not used yet. -/
def Env.step (env : Env) : ScopeOp → Env
  | .defineVar name v => env.defineVar name { v with used := false }
  | .defineFn name s => env.defineFn name s
  | .markUsed name => env.markUsed name
  | .enter => env.push
  | .leave => env.pop

def Env.run (env : Env) (ops : List ScopeOp) : Env := ops.foldl step env

/-- The names of one block. -/
structure Tables where
  types : Table Ty := []
  infos : Table Variable := []
  fns : Table Signature := []
deriving DecidableEq, Repr, Inhabited

/-- Nested scopes, from the inside out. -/
abbrev Chain := List Tables

namespace Chain

def type? (ts : Chain) (name : String) : Option Ty := ts.findSome? (·.types.get? name)

/-- Whether the innermost variable of a name can change. -/
def isMutable? (ts : Chain) (name : String) : Option Bool :=
  (ts.findSome? (·.infos.get? name)).map Variable.isMutable

def fn? (ts : Chain) (name : String) : Option Signature := ts.findSome? (·.fns.get? name)

/-- The variables of the current scope that were never used and do not say so. -/
def unused (ts : Chain) : Table Variable :=
  (ts.headD {}).infos.filter fun (name, v) => !v.used && !isSilent name

def define (f : Tables → Tables) : Chain → Chain
  | [] => []
  | t :: rest => f t :: rest

def markUsed (name : String) : Chain → Chain
  | [] => []
  | t :: rest =>
    if t.infos.has name then
      { t with infos := t.infos.update (fun v => { v with used := true }) name } :: rest
    else t :: markUsed name rest

/-- Goes back to the scope around the current one, if there is one. -/
def parent : Chain → Chain
  | _ :: t :: rest => t :: rest
  | ts => ts

def step (ts : Chain) : ScopeOp → Chain
  | .defineVar name v => ts.define fun t =>
    { t with types := t.types.put name v.type
             infos := t.infos.put name { v with used := false } }
  | .defineFn name s => ts.define fun t => { t with fns := t.fns.put name s }
  | .markUsed name => ts.markUsed name
  | .enter => {} :: ts
  | .leave => ts.parent

def run (ts : Chain) (ops : List ScopeOp) : Chain := ops.foldl step ts

end Chain

end Owl
