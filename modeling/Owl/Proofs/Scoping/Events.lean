/-
What a program does with names.

A walk through a program declares names, looks them up, and enters and leaves
scopes.  Which parts of a program are scopes, and in which order they come, can be
read in two ways: as it is written, or as the check goes.
-/
import Owl.Check
import Owl.Proofs.Failing.Emission

namespace Owl

/-! ### Events -/

/-- What can be done with names. -/
inductive Event
  | enter
  | leave
  | declare (name : String) (isMutable : Bool)
  /-- A variable is read. -/
  | use (name : String)
  /-- A function, or a variable that may hold one, is called. -/
  | call (name : String)
  | assign (name : String)
deriving DecidableEq, Repr

def Event.isLookup : Event → Bool
  | use _ | call _ | assign _ => true
  | enter | leave | declare .. => false

def Event.name? : Event → Option String
  | declare name _ | use name | call name | assign name => some name
  | enter | leave => none

def bracket (es : List Event) : List Event := .enter :: (es ++ [Event.leave])

def mentions (name : String) (es : List Event) : Nat := (es.filterMap Event.name?).count name

theorem mentions_append (name : String) (es es' : List Event) :
    mentions name (es ++ es') = mentions name es + mentions name es' := by simp [mentions]

theorem mentions_bracket (name : String) (es : List Event) :
    mentions name (bracket es) = mentions name es :=
  mentions_append name es [.leave]

/-- How a program is read. -/
inductive Scoping
  /-- As it is written: every block is a scope, and what comes first is read first. -/
  | lexical
  /-- As it is checked: the blocks of choices and of loops with or without a condition are no
  scopes, the last statement of a block that is used for its value comes before the others, and a
  callee that is neither a name nor a field is left out. -/
  | checked
deriving DecidableEq, Repr

namespace Scoping

def block : Scoping → List Event → List Event
  | lexical, es => bracket es
  | checked, es => es

/-- The events of a callee that is neither a name nor a field. -/
def callee : Scoping → List Event → List Event
  | lexical, es => es
  | checked, _ => []

end Scoping

/-- Whether a call by this name is a form of the language, whatever the name stands for. -/
def isForm (name : String) : Bool :=
  (ValueConstructor.find? name).isSome || name == "get" || name == "push"

def callEvents (name : String) : List Event := if isForm name then [] else [.call name]

def nameEvents (name : String) : List Event := if name == "None" then [] else [.use name]

def Pattern.bindings : Pattern → List String
  | .some binding _ | .ok binding _ | .err binding _ => [binding]
  | .none _ | .unknown => []

def declareAll (names : List String) : List Event := names.map fun name => .declare name false

mutual

def Expr.events (k : Scoping) : Expr → List Event
  | .name name _ => nameEvents name
  | .binary left _ right _ => left.events k ++ right.events k
  | .unary _ operand _ => operand.events k
  | .call (.name name _) args _ => callEvents name ++ exprsEvents k args
  | .call (.field object _ _) args _ => object.events k ++ exprsEvents k args
  | .call callee args _ => k.callee (callee.events k) ++ exprsEvents k args
  | .field object _ _ => object.events k
  | .propagate operand _ => operand.events k
  | .list elements _ => exprsEvents k elements
  | .matching subject arms _ => subject.events k ++ armsEvents k arms
  | .stmt s => if s.isChoice then s.events k .value else []
  | .int .. | .float .. | .string .. | .bool .. | .unknown => []

def exprsEvents (k : Scoping) : List Expr → List Event
  | [] => []
  | e :: es => e.events k ++ exprsEvents k es

def armsEvents (k : Scoping) : List Arm → List Event
  | [] => []
  | ⟨pattern, body, _⟩ :: arms =>
    bracket (declareAll pattern.bindings ++ body.events k) ++ armsEvents k arms

def Stmt.events (k : Scoping) (use : Use) : Stmt → List Event
  | .letVar name value _ isMutable _ => value.events k ++ [.declare name isMutable]
  | .assign name value _ => .assign name :: value.events k
  | .expr e _ => e.events k
  | .ret none _ => []
  | .ret (some e) _ => e.events k
  | .whileLoop condition body _ => condition.events k ++ k.block (stmtsEvents k body)
  | .forLoop item collection body _ =>
    collection.events k ++ bracket (.declare item false :: stmtsEvents k body)
  | .loop body _ => k.block (stmtsEvents k body)
  | .ifElse condition thenBody none _ =>
    condition.events k ++ k.block (match k, use with
      | .checked, .value => lastEvents k thenBody ++ initEvents k thenBody
      | _, _ => stmtsEvents k thenBody)
  | .ifElse condition thenBody (some elseBody) _ =>
    condition.events k ++
      (k.block (match k, use with
        | .checked, .value => lastEvents k thenBody ++ initEvents k thenBody
        | _, _ => stmtsEvents k thenBody) ++
      k.block (match k, use with
        | .checked, .value => lastEvents k elseBody ++ initEvents k elseBody
        | _, _ => stmtsEvents k elseBody))
  | .breakLoop _ | .continueLoop _ | .fn _ | .bare _ | .unknown => []

def stmtsEvents (k : Scoping) : List Stmt → List Event
  | [] => []
  | s :: rest => s.events k .effect ++ stmtsEvents k rest

def lastEvents (k : Scoping) : List Stmt → List Event
  | [] => []
  | [s] => s.events k .value
  | _ :: rest => lastEvents k rest

def initEvents (k : Scoping) : List Stmt → List Event
  | [] => []
  | [_] => []
  | s :: rest => s.events k .effect ++ initEvents k rest

end

/-- The events of the body of a function, every statement of which is used for its value. -/
def bodyEvents (k : Scoping) (ss : List Stmt) : List Event := ss.flatMap (Stmt.events k .value)

def FnDecl.events (k : Scoping) (fn : FnDecl) : List Event :=
  bracket (declareAll (fn.params.map Param.name) ++ bodyEvents k fn.body)

/-- The events of a program: imports come first, then functions, then statements. -/
def Program.events (k : Scoping) (p : Program) : List Event :=
  declareAll (p.imports.flatMap Import.bound) ++
    (p.functions.flatMap (FnDecl.events k) ++ stmtsEvents k p.statements)

/-! ### Frames -/

/-- The names that are declared in a scope, and whether they can change. -/
abbrev Frame := Table Bool

/-- The frames of nested scopes, from the inside out. -/
abbrev Frames := List Frame

def Event.step : Frames → Event → Frames
  | Γ, enter => [] :: Γ
  | Γ, leave => Γ.tail
  | [], declare name isMutable => [[(name, isMutable)]]
  | f :: Γ, declare name isMutable => f.put name isMutable :: Γ
  | Γ, use _ | Γ, call _ | Γ, assign _ => Γ

/-- The names that are known after some events, scope by scope. -/
def after (Γ : Frames) (es : List Event) : Frames := es.foldl Event.step Γ

/-- Whether the innermost declaration of a name can change; none if there is no declaration. -/
def Frames.find? (Γ : Frames) (name : String) : Option Bool := Γ.findSome? (·.get? name)

@[simp] theorem after_nil (Γ : Frames) : after Γ [] = Γ := rfl

theorem after_cons (Γ : Frames) (e : Event) (es : List Event) :
    after Γ (e :: es) = after (e.step Γ) es := rfl

theorem after_append (Γ : Frames) (es es' : List Event) :
    after Γ (es ++ es') = after (after Γ es) es' :=
  List.foldl_append

theorem after_bracket (Γ : Frames) (es : List Event) :
    after Γ (bracket es) = (after ([] :: Γ) es).tail := by
  rw [bracket, after_cons, after_append]
  rfl

theorem Event.step_of_isLookup {e : Event} (h : e.isLookup = true) (Γ : Frames) : e.step Γ = Γ := by
  cases e with
  | enter | leave | declare => cases h
  | use | call | assign => cases Γ <;> rfl

/-! ### Brackets -/

/-- Events that leave every scope they enter and no other one.  The first argument says whether they
may declare names outside of these scopes. -/
inductive Bracketed : Bool → List Event → Prop
  | nil {isOpen} : Bracketed isOpen []
  | lookup {isOpen e es} (he : e.isLookup = true) (hes : Bracketed isOpen es) :
    Bracketed isOpen (e :: es)
  | declare {name isMutable es} (hes : Bracketed true es) :
    Bracketed true (.declare name isMutable :: es)
  | scope {isOpen es es'} (hes : Bracketed true es) (hes' : Bracketed isOpen es') :
    Bracketed isOpen (bracket es ++ es')

namespace Bracketed

variable {isOpen : Bool} {es es' : List Event}

theorem append (h : Bracketed isOpen es) (h' : Bracketed isOpen es') :
    Bracketed isOpen (es ++ es') := by
  induction h with
  | nil => exact h'
  | lookup he _ ih => exact .lookup he (ih h')
  | declare _ ih => exact .declare (ih h')
  | scope hes _ _ ih =>
    rw [List.append_assoc]
    exact .scope hes (ih h')

theorem opened (h : Bracketed isOpen es) : Bracketed true es := by
  induction h with
  | nil => exact .nil
  | lookup he _ ih => exact .lookup he ih
  | declare _ ih => exact .declare ih
  | scope hes _ _ ih => exact .scope hes ih

theorem bracket (h : Bracketed true es) : Bracketed isOpen (Owl.bracket es) := by
  have hscope : Bracketed isOpen (Owl.bracket es ++ []) := .scope h .nil
  rwa [List.append_nil] at hscope

theorem declareAll (names : List String) : Bracketed true (Owl.declareAll names) := by
  induction names with
  | nil => exact .nil
  | cons name names ih => exact .declare ih

/-- Only the innermost frame can change. -/
theorem exists_after (h : Bracketed isOpen es) (f : Frame) (Γ : Frames) :
    ∃ f', after (f :: Γ) es = f' :: Γ := by
  induction h generalizing f Γ with
  | nil => exact ⟨f, rfl⟩
  | lookup he _ ih =>
    rw [after_cons, Event.step_of_isLookup he]
    exact ih f Γ
  | declare _ ih => exact ih _ Γ
  | scope _ _ ih ih' =>
    obtain ⟨g, hg⟩ := ih [] (f :: Γ)
    rw [after_append, after_bracket, hg]
    exact ih' f Γ

theorem length_after (h : Bracketed isOpen es) (f : Frame) (Γ : Frames) :
    (after (f :: Γ) es).length = (f :: Γ).length := by
  obtain ⟨f', hf'⟩ := h.exists_after f Γ
  rw [hf']
  rfl

theorem after_bracket (h : Bracketed isOpen es) (Γ : Frames) : after Γ (Owl.bracket es) = Γ := by
  obtain ⟨f, hf⟩ := h.exists_after [] Γ
  rw [Owl.after_bracket, hf, List.tail_cons]

/-- Events that declare nothing outside of their own scopes leave all frames as they are. -/
theorem after_eq (h : Bracketed false es) (Γ : Frames) : after Γ es = Γ := by
  generalize hopen : false = isOpen at h
  induction h with
  | nil => rfl
  | lookup he _ ih =>
    rw [after_cons, Event.step_of_isLookup he]
    exact ih hopen
  | declare => cases hopen
  | scope hes _ _ ih =>
    rw [after_append, hes.after_bracket]
    exact ih hopen

end Bracketed

theorem Bracketed.nameEvents {isOpen : Bool} (name : String) :
    Bracketed isOpen (nameEvents name) := by
  rw [Owl.nameEvents]
  split
  · exact .nil
  · exact .lookup rfl .nil

theorem Bracketed.callEvents {isOpen : Bool} (name : String) :
    Bracketed isOpen (callEvents name) := by
  rw [Owl.callEvents]
  split
  · exact .nil
  · exact .lookup rfl .nil

mutual

/-- Expressions declare nothing outside of their own scopes. -/
theorem Expr.events_closed (k : Scoping) : ∀ e : Expr, e.Ordinary → Bracketed false (e.events k)
  | .int .., _ | .float .., _ | .string .., _ | .bool .., _ => by
    exact .nil
  | .name name _, _ => by
    exact .nameEvents name
  | .binary left _ right _, h => by
    obtain ⟨hleft, hright⟩ := onlyCalls_append.mp h
    exact (left.events_closed k hleft).append (right.events_closed k hright)
  | .unary _ operand _, h | .field operand _ _, h | .propagate operand _, h => by
    exact operand.events_closed k h
  | .call callee args _, h => by
    obtain ⟨hcallee, hrest⟩ := onlyCalls_append.mp h
    have hargs := exprsEvents_closed k args (onlyCalls_append.mp hrest).1
    have hclosed := callee.events_closed k hcallee
    cases callee with
    | name name span? =>
      exact .append (.callEvents name) hargs
    | field object field span? =>
      simp only [Expr.events] at hclosed ⊢
      exact hclosed.append hargs
    | _ =>
      cases k with
      | lexical => exact hclosed.append hargs
      | checked => exact hargs
  | .list elements _, h => by
    exact exprsEvents_closed k elements h
  | .matching subject arms _, h => by
    obtain ⟨hsubject, harms⟩ := onlyCalls_append.mp h
    exact (subject.events_closed k hsubject).append (armsEvents_closed k arms harms)
  | .stmt _, h | .unknown, h => absurd h (not_onlyCalls_node _)

theorem exprsEvents_closed (k : Scoping) :
    ∀ es : List Expr, OnlyCalls (exprsHazards es) → Bracketed false (exprsEvents k es)
  | [], _ => by
    exact .nil
  | e :: es, h => by
    obtain ⟨hfirst, hrest⟩ := onlyCalls_append.mp h
    exact (e.events_closed k hfirst).append (exprsEvents_closed k es hrest)

theorem armsEvents_closed (k : Scoping) :
    ∀ arms : List Arm, OnlyCalls (armsHazards arms) → Bracketed false (armsEvents k arms)
  | [], _ => by
    exact .nil
  | ⟨pattern, body, _⟩ :: arms, h => by
    obtain ⟨hbody, hrest⟩ := onlyCalls_append.mp h
    refine .scope (.append (.declareAll _) (body.events_closed k hbody).opened) ?_
    exact armsEvents_closed k arms hrest

end

end Owl
