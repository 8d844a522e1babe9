/-
What a check looks at.

Every expression of a program stands at a spot.  A check that finds nothing comes to
all of them, but for those in a callee that is neither a name nor a field: such a
callee is not looked at, and whatever stands in it is taken as it is.
-/
import Owl.Proofs.Visiting.Steps

namespace Owl

open CheckM

/-! ### Spots -/

/-- Where an expression stands. -/
structure Spot where
  /-- The patterns of the arms around it, from the inside out. -/
  around : List Pattern
  /-- Whether it stands in an argument that a template has no place for. -/
  dropped : Bool
  expr : Expr

variable {spot : Spot} {c : Checker} {p : Program} {subject : Ty} {around : List Pattern}
  {dropped : Bool} {name : String}

mutual

/-- The spots of an expression and of what stands in it.  A name that is called has none. -/
@[simp] def Expr.spots (around : List Pattern) (dropped : Bool) : Expr → List Spot
  | .binary left op right span? =>
    ⟨around, dropped, .binary left op right span?⟩ ::
      (left.spots around dropped ++ right.spots around dropped)
  | .unary op operand span? =>
    ⟨around, dropped, .unary op operand span?⟩ :: operand.spots around dropped
  | .call (.name name nameSpan?) args span? =>
    ⟨around, dropped, .call (.name name nameSpan?) args span?⟩ ::
      exprsSpots around dropped ((Builtin.find? name).map (·.params.length)) args
  | .call callee args span? =>
    ⟨around, dropped, .call callee args span?⟩ ::
      (callee.spots around dropped ++ exprsSpots around dropped none args)
  | .field object field span? =>
    ⟨around, dropped, .field object field span?⟩ :: object.spots around dropped
  | .propagate operand span? =>
    ⟨around, dropped, .propagate operand span?⟩ :: operand.spots around dropped
  | .list elements span? =>
    ⟨around, dropped, .list elements span?⟩ :: exprsSpots around dropped none elements
  | .matching subject arms span? =>
    ⟨around, dropped, .matching subject arms span?⟩ ::
      (subject.spots around dropped ++ armsSpots around dropped arms)
  | .int value span? => [⟨around, dropped, .int value span?⟩]
  | .float value span? => [⟨around, dropped, .float value span?⟩]
  | .string value span? => [⟨around, dropped, .string value span?⟩]
  | .bool value span? => [⟨around, dropped, .bool value span?⟩]
  | .name name span? => [⟨around, dropped, .name name span?⟩]
  | .stmt s => [⟨around, dropped, .stmt s⟩]
  | .unknown => [⟨around, dropped, .unknown⟩]

@[simp] def exprsSpots (around : List Pattern) (dropped : Bool) (room? : Option Nat) :
    List Expr → List Spot
  | [] => []
  | e :: es =>
    e.spots around (dropped || room? == some 0) ++ exprsSpots around dropped (room?.map (· - 1)) es

@[simp] def armsSpots (around : List Pattern) (dropped : Bool) : List Arm → List Spot
  | [] => []
  | ⟨pattern, body, _⟩ :: arms =>
    body.spots (pattern :: around) dropped ++ armsSpots around dropped arms

end

mutual

@[simp] def Stmt.spots : Stmt → List Spot
  | .letVar _ value _ _ _ => value.spots [] false
  | .assign _ value _ => value.spots [] false
  | .expr e _ => e.spots [] false
  | .ret none _ => []
  | .ret (some value) _ => value.spots [] false
  | .whileLoop condition body _ => condition.spots [] false ++ stmtsSpots body
  | .forLoop _ collection body _ => collection.spots [] false ++ stmtsSpots body
  | .loop body _ => stmtsSpots body
  | .ifElse condition thenBody none _ => condition.spots [] false ++ stmtsSpots thenBody
  | .ifElse condition thenBody (some elseBody) _ =>
    condition.spots [] false ++ (stmtsSpots thenBody ++ stmtsSpots elseBody)
  | .breakLoop _ | .continueLoop _ | .fn _ | .bare _ | .unknown => []

@[simp] def stmtsSpots : List Stmt → List Spot
  | [] => []
  | s :: rest => s.spots ++ stmtsSpots rest

end

def Program.spots (p : Program) : List Spot :=
  p.functions.flatMap (fun fn => stmtsSpots fn.body) ++ stmtsSpots p.statements

/-- The expression is a call, and the spot is in its callee, which is neither a name nor a field. -/
def Expr.LeavesOut (spot : Spot) (e : Expr) : Prop :=
  ∃ callee args span?, e = .call callee args span? ∧ callee.isComputed = true ∧
    ∃ around dropped, spot ∈ callee.spots around dropped

/-! ### Coverage -/

def Fragment.spots (around : List Pattern) (dropped : Bool) (room? : Option Nat) :
    Fragment → List Spot
  | expr e => e.spots around dropped
  | exprs es => exprsSpots around dropped room? es
  | arms _ choices => armsSpots around dropped choices
  | stmt _ s => s.spots
  | stmts ss => stmtsSpots ss
  | last ss => stmtsSpots ss.getLast?.toList
  | init ss => stmtsSpots ss.dropLast
  | body _ ss => stmtsSpots ss

/-- How large a fragment is. -/
noncomputable def Fragment.size : Fragment → Nat
  | expr e => sizeOf e
  | exprs es => sizeOf es
  | arms _ choices => sizeOf choices
  | stmt _ s => sizeOf s
  | stmts ss | last ss | init ss | body _ ss => sizeOf ss

/-- A check goes on to smaller fragments. -/
theorem Fragment.Step.size_lt {x y : Fragment × Checker} (h : Step x y) : y.1.size < x.1.size := by
  cases h <;> simp only [Fragment.size] <;> simp <;> omega

/-- What becomes of a spot when the check is at a fragment. -/
inductive Covered (x : Fragment) (c : Checker) (spot : Spot) : Prop
  | here (h : x = .expr spot.expr)
  | leftOut {e : Expr} (h : x = .expr e) (hout : e.LeavesOut spot)
  | passed {y : Fragment} {d : Checker} (hstep : Fragment.Step (x, c) (y, d))
      (around : List Pattern) (dropped : Bool) (room? : Option Nat)
      (hspot : spot ∈ y.spots around dropped room?)

theorem expectedPatterns_of_findings {arms : CheckM (List (String × Ty))} {place : Span}
    (hnil : (matchRule subject arms place c).2.findings = []) :
    (expectedPatterns subject).isEmpty = false := by
  rw [matchRule] at hnil
  split at hnil
  · exact absurd hnil (List.append_ne_nil_of_right_ne_nil _ (List.cons_ne_nil _ _))
  · next hpatterns => simpa using hpatterns

theorem fits_of_findings {pattern : Pattern} {body : CheckM Ty}
    (hnil : (armRule subject pattern body c).2.findings = []) :
    (expectedPatterns subject).contains pattern.name = true := by
  rw [armRule] at hnil
  split at hnil
  · next hfits => exact hfits
  · exact absurd hnil (reported_ne_nil _ _ _ _)

theorem Expr.spots_call_of_ne {callee : Expr} (hname : ¬ ∃ name span?, callee = .name name span?)
    (args : List Expr) (span? : Option Span) (around : List Pattern) (dropped : Bool) :
    (Expr.call callee args span?).spots around dropped =
      ⟨around, dropped, .call callee args span?⟩ ::
        (callee.spots around dropped ++ exprsSpots around dropped none args) := by
  cases callee with
  | name name span? => exact absurd ⟨name, span?, rfl⟩ hname
  | _ => simp only [spots]

theorem covered_call (callee : Expr) (args : List Expr) (span? : Option Span) (c : Checker)
    (hnil : (checkExpr (.call callee args span?) c).2.findings = [])
    (h : spot ∈ (Expr.call callee args span?).spots around dropped) :
    Covered (.expr (.call callee args span?)) c spot := by
  by_cases hcomputed : callee.isComputed = true
  · -- The callee is left out, and the arguments are looked at.
    have hname : ¬ ∃ name span?, callee = .name name span? := by
      rintro ⟨name, nameSpan?, rfl⟩
      cases hcomputed
    rw [Expr.spots_call_of_ne hname, List.mem_cons, List.mem_append] at h
    rcases h with rfl | h | h
    · exact .here rfl
    · exact .leftOut rfl ⟨callee, args, span?, rfl, hcomputed, around, dropped, h⟩
    · exact .passed (.computedArgs hcomputed) around dropped none h
  cases callee with
  | name name nameSpan? =>
    simp only [Expr.spots, List.mem_cons] at h
    rcases h with rfl | h
    · exact .here rfl
    · simp only [checkExpr] at hnil
      obtain ⟨hseen, -⟩ := argsState?_of_findings (checkExprs_keeps args) hnil
      rw [List.length_map] at hseen
      exact .passed (.namedArgs hseen) around dropped _ h
  | field object field fieldSpan? =>
    simp only [Expr.spots, List.mem_cons, List.mem_append] at h
    rcases h with rfl | h | h
    · exact .here rfl
    · refine .passed .fieldCallee around dropped none ?_
      simp only [Fragment.spots, Expr.spots, List.mem_cons]
      exact h
    · exact .passed .fieldArgs around dropped none h
  | _ => exact absurd rfl hcomputed

theorem covered_expr (e : Expr) (c : Checker) (hnil : (checkExpr e c).2.findings = [])
    (h : spot ∈ e.spots around dropped) : Covered (.expr e) c spot := by
  cases e with
  | int | float | string | bool | name | stmt | unknown =>
    obtain rfl := List.mem_singleton.mp h
    exact .here rfl
  | binary left op right span? =>
    simp only [Expr.spots, List.mem_cons, List.mem_append] at h
    rcases h with rfl | h | h
    · exact .here rfl
    · exact .passed .left around dropped none h
    · exact .passed .right around dropped none h
  | unary op operand span? =>
    simp only [Expr.spots, List.mem_cons] at h
    rcases h with rfl | h
    · exact .here rfl
    · exact .passed .operand around dropped none h
  | call callee args span? => exact covered_call callee args span? c hnil h
  | field object field span? =>
    simp only [Expr.spots, List.mem_cons] at h
    rcases h with rfl | h
    · exact .here rfl
    · exact .passed .object around dropped none h
  | propagate operand span? =>
    simp only [Expr.spots, List.mem_cons] at h
    rcases h with rfl | h
    · exact .here rfl
    · exact .passed .question around dropped none h
  | list elements span? =>
    simp only [Expr.spots, List.mem_cons] at h
    rcases h with rfl | h
    · exact .here rfl
    · exact .passed .elements around dropped none h
  | matching subject arms span? =>
    simp only [Expr.spots, List.mem_cons, List.mem_append] at h
    rcases h with rfl | h | h
    · exact .here rfl
    · exact .passed .subject around dropped none h
    · have hrun : (matchRule (checkExpr subject c).1 (checkArms (checkExpr subject c).1 arms)
          (span?.getD .dummy) (checkExpr subject c).2).2.findings = [] := by
        simp only [checkExpr] at hnil
        exact hnil
      exact .passed (.arms (expectedPatterns_of_findings hrun)) around dropped none h

theorem mem_stmtsSpots_ends {ss : List Stmt} (h : spot ∈ stmtsSpots ss) :
    spot ∈ stmtsSpots ss.getLast?.toList ∨ spot ∈ stmtsSpots ss.dropLast := by
  induction ss with
  | nil => exact .inl h
  | cons s rest ih =>
    cases rest with
    | nil => exact .inl h
    | cons s' rest =>
      rw [stmtsSpots, List.mem_append] at h
      rw [List.getLast?_cons_cons, List.dropLast_cons_cons, stmtsSpots, List.mem_append]
      rcases h with h | h
      · exact .inr (.inl h)
      · exact (ih h).imp_right .inr

theorem covered_ifElse (use : Use) (condition : Expr) (thenBody : List Stmt)
    (elseBody? : Option (List Stmt)) (span? : Option Span) (c : Checker)
    (h : spot ∈ (Stmt.ifElse condition thenBody elseBody? span?).spots) :
    Covered (.stmt use (.ifElse condition thenBody elseBody? span?)) c spot := by
  have hthen : ∀ h : spot ∈ stmtsSpots thenBody,
      Covered (.stmt use (.ifElse condition thenBody elseBody? span?)) c spot := by
    intro h
    cases use with
    | effect => exact .passed .thenBody [] false none h
    | value =>
      -- The last statement of a branch is looked at before the others.
      rcases mem_stmtsSpots_ends h with h | h
      · exact .passed .thenLast [] false none h
      · exact .passed (.thenInit rfl) [] false none h
  cases elseBody? with
  | none =>
    simp only [Stmt.spots, List.mem_append] at h
    rcases h with h | h
    · exact .passed .condition [] false none h
    · exact hthen h
  | some elseBody =>
    simp only [Stmt.spots, List.mem_append] at h
    rcases h with h | h | h
    · exact .passed .condition [] false none h
    · exact hthen h
    · cases use with
      | effect => exact .passed (.elseBody rfl) [] false none h
      | value =>
        rcases mem_stmtsSpots_ends h with h | h
        · exact .passed (.elseLast rfl) [] false none h
        · exact .passed (.elseInit rfl) [] false none h

theorem covered_stmt (use : Use) (s : Stmt) (c : Checker)
    (hnil : (checkStmt use s c).2.findings = []) (h : spot ∈ s.spots) :
    Covered (.stmt use s) c spot := by
  cases s with
  | letVar name value type? isMutable span? => exact .passed .letValue [] false none h
  | assign name value span? =>
    simp only [checkStmt] at hnil
    obtain ⟨hvar, -⟩ := of_assignRule hnil
    obtain ⟨v, hv, hmutable⟩ := Option.map_eq_some_iff.mp hvar
    exact .passed (.assigned hv hmutable) [] false none h
  | expr e span? => exact .passed .exprStmt [] false none h
  | ret value? span? =>
    cases value? with
    | none => cases h
    | some value => exact .passed .returned [] false none h
  | whileLoop condition body span? =>
    simp only [Stmt.spots, List.mem_append] at h
    rcases h with h | h
    · exact .passed .whileCondition [] false none h
    · exact .passed (.whileBody rfl) [] false none h
  | forLoop item collection body span? =>
    simp only [Stmt.spots, List.mem_append] at h
    rcases h with h | h
    · exact .passed .collection [] false none h
    · exact .passed (.forBody rfl) [] false none h
  | loop body span? => exact .passed .loopBody [] false none h
  | ifElse condition thenBody elseBody? span? => exact covered_ifElse use _ _ _ _ c h
  | breakLoop | continueLoop | fn | bare | unknown => cases h

/-- A check that finds nothing comes from a fragment to all that is in it, step by step. -/
theorem covered (x : Fragment) (c : Checker) (hnil : (x.run c).findings = []) {room? : Option Nat}
    (h : spot ∈ x.spots around dropped room?) : Covered x c spot := by
  cases x with
  | expr e => exact covered_expr e c hnil h
  | exprs es =>
    cases es with
    | nil => cases h
    | cons e es =>
      simp only [Fragment.spots, exprsSpots, List.mem_append] at h
      rcases h with h | h
      · exact .passed .firstExpr around _ none h
      · exact .passed .restExprs around dropped _ h
  | arms subject choices =>
    cases choices with
    | nil => cases h
    | cons arm arms =>
      obtain ⟨pattern, body, span?⟩ := arm
      simp only [Fragment.spots, armsSpots, List.mem_append] at h
      rcases h with h | h
      · simp only [Fragment.run, checkArms] at hnil
        have hfirst := Keeps.of_bind (fun _ => (checkArms_keeps _ _).map _) hnil
        exact .passed (.firstArm (fits_of_findings hfirst)) (pattern :: around) dropped none h
      · exact .passed .restArms around dropped none h
  | stmt use s => exact covered_stmt use s c hnil h
  | stmts ss =>
    cases ss with
    | nil => cases h
    | cons s rest =>
      simp only [Fragment.spots, stmtsSpots, List.mem_append] at h
      rcases h with h | h
      · exact .passed .firstStmt [] false none h
      · exact .passed .restStmts [] false none h
  | last ss =>
    rcases ss with _ | ⟨s, _ | ⟨s', rest⟩⟩
    · cases h
    · refine .passed .lastStmt [] false none ?_
      simpa [Fragment.spots] using h
    · refine .passed .restLast [] false none ?_
      simpa only [Fragment.spots, List.getLast?_cons_cons] using h
  | init ss =>
    rcases ss with _ | ⟨s, _ | ⟨s', rest⟩⟩
    · cases h
    · cases h
    · simp only [Fragment.spots, List.dropLast_cons_cons, stmtsSpots, List.mem_append] at h
      rcases h with h | h
      · exact .passed .firstInit [] false none h
      · exact .passed .restInit [] false none h
  | body returned ss =>
    rcases ss with _ | ⟨s, rest⟩
    · cases h
    · simp only [Fragment.spots, stmtsSpots, List.mem_append] at h
      rcases h with h | h
      · exact .passed .firstOfBody [] false none h
      · cases rest with
        | nil => cases h
        | cons s' rest => exact .passed (.restOfBody rfl) [] false none h

/-- A check that finds nothing comes from a fragment to each of its spots, or to a call that leaves
the spot out. -/
theorem covers (x : Fragment) (c : Checker) (hnil : (x.run c).findings = []) {room? : Option Nat}
    (h : spot ∈ x.spots around dropped room?) :
    ∃ e d, Relation.ReflTransGen Fragment.Step (x, c) (.expr e, d) ∧
      (e = spot.expr ∨ e.LeavesOut spot) := by
  -- The fragments that the check goes on to are smaller.
  induction hsize : x.size using Nat.strong_induction_on generalizing x c around dropped room? with
  | h n ih =>
    cases covered x c hnil h with
    | here hx =>
      subst hx
      exact ⟨spot.expr, c, .refl, .inl rfl⟩
    | @leftOut e hx hout =>
      subst hx
      exact ⟨e, c, .refl, .inr hout⟩
    | @passed y d hstep around' dropped' room?' hspot =>
      have hlt : y.size < n := hsize ▸ hstep.size_lt
      obtain ⟨e, e', hreach, hend⟩ := ih y.size hlt y d (hstep.findings hnil) hspot rfl
      exact ⟨e, e', .head hstep hreach, hend⟩

theorem spots_starts (h : spot ∈ p.spots) :
    ∃ start ∈ p.starts, spot ∈ start.1.spots [] false none := by
  have hblock : ∃ x ∈ p.blocks, spot ∈ x.spots [] false none := by
    rcases List.mem_append.mp h with h | h
    · obtain ⟨fn, hfn, h⟩ := List.mem_flatMap.mp h
      exact ⟨.body false fn.body, List.mem_append_left _ (List.mem_map_of_mem hfn), h⟩
    · exact ⟨.stmts p.statements, List.mem_append_right _ (List.mem_singleton_self _), h⟩
  obtain ⟨x, hx, h⟩ := hblock
  rw [← p.starts_fst] at hx
  obtain ⟨start, hstart, rfl⟩ := List.mem_map.mp hx
  exact ⟨start, hstart, h⟩

/-- A check of a program that finds nothing comes to every spot, or to a call that leaves it out. -/
theorem Program.visits_spots (hnil : (Checker.new.check p).findings = []) (h : spot ∈ p.spots) :
    ∃ e c, p.Visits e c ∧ (e = spot.expr ∨ e.LeavesOut spot) := by
  obtain ⟨start, hstart, hspot⟩ := spots_starts h
  have hstartNil := (starts_retains p start hstart).findings hnil
  obtain ⟨e, c, hreach, hend⟩ := covers start.1 start.2 hstartNil hspot
  exact ⟨e, c, ⟨start, hstart, hreach⟩, hend⟩

/-! ### Calls -/

def Event.declared? : Event → Option String
  | declare name _ => some name
  | enter | leave | use _ | call _ | assign _ => none

/-- The names of the variables that a program declares when it is checked: those of its imports,
parameters, loops, patterns and `let` statements. -/
def Program.declaredNames (p : Program) : List String :=
  (p.events .checked).filterMap Event.declared?

/-- A name is declared after an event only if it was before, or if the event declares it. -/
theorem Event.isSome_find?_step {Γ : Frames} {e : Event}
    (h : ((e.step Γ).find? name).isSome = true) :
    (Γ.find? name).isSome = true ∨ e.declared? = some name := by
  cases e with
  | use | call | assign => exact .inl (by rwa [Event.step_of_isLookup rfl] at h)
  | enter => exact .inl h
  | leave =>
    cases Γ with
    | nil => exact .inl h
    | cons f Γ =>
      refine .inl ?_
      rw [Frames.find?, List.findSome?_cons]
      cases f.get? name with
      | some isMutable => rfl
      | none => exact h
  | declare other isMutable =>
    by_cases hother : other = name
    · exact .inr (congrArg some hother)
    · cases Γ with
      | nil => simp [Event.step, Frames.find?, Table.get?, hother] at h
      | cons f Γ =>
        refine .inl ?_
        simpa [Event.step, Frames.find?, List.findSome?_cons, Table.get?_put, hother] using h

/-- What is called in events whose look-ups hold is known, or it is declared. -/
theorem Scoped.of_call {known : List String} {Γ : Frames} {es : List Event}
    (h : Scoped [] known Γ es) (hcall : .call name ∈ es) :
    name ∈ known ∨ (Γ.find? name).isSome = true ∨ name ∈ es.filterMap Event.declared? := by
  induction es generalizing Γ with
  | nil => cases hcall
  | cons e es ih =>
    obtain ⟨hholds, hrest⟩ := h
    rw [List.filterMap_cons]
    rcases List.mem_cons.mp hcall with rfl | hcall
    · rcases hholds with hholds | ⟨_, hnone, _⟩
      · exact hholds.imp_right .inl
      · cases hnone
    · rcases ih hrest hcall with hknown | hfound | hdeclared
      · exact .inl hknown
      · refine .inr ((Event.isSome_find?_step hfound).imp_right fun he => ?_)
        rw [he]
        exact List.mem_cons_self ..
      · refine .inr (.inr ?_)
        cases e.declared? with
        | none => exact hdeclared
        | some _ => exact List.mem_cons_of_mem _ hdeclared

/-- A name that a program can call: it is a constructor's, that of a function of the language or of
the program, or that of a variable that the program declares. -/
def Program.CanCall (p : Program) (name : String) : Prop :=
  (ValueConstructor.find? name).isSome = true ∨ name ∈ p.known ∨ name ∈ p.declaredNames

instance (p : Program) (name : String) : Decidable (p.CanCall name) :=
  inferInstanceAs (Decidable (_ ∨ _ ∨ _))

theorem check_events_scoped (hp : p.Parsed) (hnil : (Checker.new.check p).findings = []) :
    Scoped [] p.known [[]] (p.events .checked) := by
  have hkeys : Checker.new.env.scope.fns.keys = Builtin.all.map Builtin.name := by decide +kernel
  refine checkProgram_scoped hp.onlyCalls (fun name hname => ?_) new_shape hnil
  exact Table.mem_keys hname

theorem canCall_of_visits (hp : p.Parsed) (hnil : (Checker.new.check p).findings = [])
    {nameSpan? : Option Span} {args : List Expr} {span? : Option Span}
    (h : p.Visits (.call (.name name nameSpan?) args span?) c) : p.CanCall name := by
  by_cases hform : isForm name = true
  · rw [isForm, Bool.or_eq_true, Bool.or_eq_true, beq_iff_eq, beq_iff_eq] at hform
    rcases hform with (hconstructor | rfl) | rfl
    · exact .inl hconstructor
    · exact .inr (.inl (List.mem_append_left _ (by decide)))
    · exact .inr (.inl (List.mem_append_left _ (by decide)))
  · have hcall : Event.call name ∈ p.events .checked := by
      refine h.events ?_
      simp [Expr.events, callEvents, hform]
    rcases (check_events_scoped hp hnil).of_call hcall with hknown | hfound | hdeclared
    · exact .inr (.inl hknown)
    · cases hfound
    · exact .inr (.inr hdeclared)

/-! ### Matches -/

/-- A match on a type is complete: the type is that of an optional value or of a result, and both of
its patterns are there. -/
def Complete (patterns : List String) : Ty → Prop
  | .option _ => "Some" ∈ patterns ∧ "None" ∈ patterns
  | .result _ _ => "Ok" ∈ patterns ∧ "Err" ∈ patterns
  | .plain _ | .list _ => False

theorem armRule_name {pattern : Pattern} {body : CheckM Ty} {arm : String × Ty}
    (h : (armRule subject pattern body c).1 = some arm) : arm.1 = pattern.name := by
  rw [armRule] at h
  split at h
  · cases hbinding : patternBinding? subject pattern <;> rw [hbinding] at h <;> cases h <;> rfl
  · cases h

/-- The arms that fit a subject are among the arms of the match. -/
theorem checkArms_names (subject : Ty) (arms : List Arm) (c : Checker) :
    ∀ name ∈ (checkArms subject arms c).1.map Prod.fst, name ∈ arms.map (·.pattern.name) := by
  induction arms generalizing c with
  | nil =>
    exact List.forall_mem_nil _
  | cons arm arms ih =>
    obtain ⟨pattern, body, span?⟩ := arm
    have hrun : (checkArms subject (⟨pattern, body, span?⟩ :: arms) c).1 =
        (armRule subject pattern (checkExpr body) c).1.toList ++
          (checkArms subject arms (armRule subject pattern (checkExpr body) c).2).1 := by
      rfl
    intro name hname
    rw [hrun, List.map_append, List.mem_append] at hname
    rcases hname with hname | hname
    · obtain ⟨found, hfound, rfl⟩ := List.mem_map.mp hname
      rw [armRule_name (Option.mem_toList.mp hfound)]
      exact List.mem_cons_self ..
    · exact List.mem_cons_of_mem _ (ih _ name hname)

theorem patterns_of_armsRule {arms : List (String × Ty)} {place : Span}
    (hnil : (armsRule subject arms place c).2.findings = []) :
    ∀ pattern ∈ expectedPatterns subject, pattern ∈ arms.map Prod.fst := by
  rw [armsRule] at hnil
  split at hnil
  · next hempty =>
    intro pattern hpattern
    by_contra hmissing
    rw [List.isEmpty_iff, List.filter_eq_nil_iff] at hempty
    exact hempty pattern hpattern (by simpa using hmissing)
  · refine absurd (Keeps.of_bind (fun _ => ?_) hnil) (Checker.findings_addDiagnostic_ne_nil _ _)
    split
    · exact .pure _
    · split
      · exact .map (.of_adds (Checker.adds_finding · _)) _
      · exact .pure _

/-- A match that the check comes to is complete for the type that it finds for the subject. -/
theorem complete_of_visits (hnil : (Checker.new.check p).findings = []) {subject : Expr}
    {arms : List Arm} {span? : Option Span} (h : p.Visits (.matching subject arms span?) c) :
    Complete (arms.map (·.pattern.name)) (checkExpr subject c).1 := by
  have hrun : (matchRule (checkExpr subject c).1 (checkArms (checkExpr subject c).1 arms)
      (span?.getD .dummy) (checkExpr subject c).2).2.findings = [] := by
    have hfound := h.findings hnil
    simp only [checkExpr] at hfound
    exact hfound
  have hpatterns := expectedPatterns_of_findings hrun
  rw [matchRule, hpatterns] at hrun
  have hnames := checkArms_names (checkExpr subject c).1 arms (checkExpr subject c).2
  have hall := fun pattern hpattern => hnames pattern (patterns_of_armsRule hrun pattern hpattern)
  cases htype : (checkExpr subject c).1 with
  | option inner =>
    rw [htype] at hall
    exact ⟨hall "Some" (by simp [expectedPatterns]), hall "None" (by simp [expectedPatterns])⟩
  | result ok err =>
    rw [htype] at hall
    exact ⟨hall "Ok" (by simp [expectedPatterns]), hall "Err" (by simp [expectedPatterns])⟩
  | plain | list =>
    rw [htype] at hpatterns
    cases hpatterns

/-! ### Accepted programs -/

def Expr.calledName? : Expr → Option String
  | .call (.name called _) _ _ => some called
  | _ => none

theorem Expr.of_calledName? {e : Expr} {called : String} (h : e.calledName? = some called) :
    ∃ nameSpan? args span?, e = .call (.name called nameSpan?) args span? := by
  rw [calledName?.eq_def] at h
  split at h
  · cases h
    exact ⟨_, _, _, rfl⟩
  · cases h

def Expr.patternNames? : Expr → Option (List String)
  | .matching _ arms _ => some (arms.map (·.pattern.name))
  | _ => none

/-- The expression, in a state in which it is checked, calls only what the program can call, and is
complete if it is a match. -/
structure Expr.Settled (p : Program) (c : Checker) (e : Expr) : Prop where
  calls : ∀ name, e.calledName? = some name → p.CanCall name
  complete : ∀ subject arms span?, e = .matching subject arms span? →
    Complete (arms.map (·.pattern.name)) (checkExpr subject c).1

/-- **Nothing but computed callees escapes the check.**  In an accepted program the check comes to
every expression, and finds nothing there: a call by name names a constructor, a function or a
declared variable, and a match has both patterns of its subject's type.  The exceptions are the
expressions in a callee that is neither a name nor a field, of a call that the check comes to. -/
theorem check_covers {p : Program} (hp : p.Parsed) (h : (Checker.new.check p).findings = []) :
    ∀ spot ∈ p.spots,
      (∃ c, p.Visits spot.expr c ∧ (checkExpr spot.expr c).2.findings = [] ∧
        spot.expr.Settled p c) ∨
      ∃ e c, p.Visits e c ∧ e.LeavesOut spot := by
  intro spot hspot
  obtain ⟨e, c, hvisits, rfl | hout⟩ := Program.visits_spots h hspot
  · refine .inl ⟨c, hvisits, hvisits.findings h, ⟨fun name hname => ?_, ?_⟩⟩
    · obtain ⟨nameSpan?, args, span?, heq⟩ := Expr.of_calledName? hname
      rw [heq] at hvisits
      exact canCall_of_visits hp h hvisits
    · rintro subject arms span? heq
      rw [heq] at hvisits
      exact complete_of_visits h hvisits
  · exact .inr ⟨e, c, hvisits, hout⟩

/-- A match in a function, and calls in the argument of a call. -/
theorem check_covers_nested :
    ∃ p, readProgram "" ("fn g(o: Option[Int]) -> Int \x7b\n" ++
        "return match o \x7b Some(x) => x + len([x]), None => 0 \x7d\n\x7d\nprint(g(Some(1)))") =
          .ok p ∧
      (Checker.new.check p).findings = [] ∧
      p.spots.filterMap (·.expr.calledName?) = ["len", "print", "g", "Some"] ∧
      p.spots.filterMap (·.expr.patternNames?) = [["Some", "None"]] ∧
      ∀ spot ∈ p.spots,
        (∃ c, p.Visits spot.expr c ∧ (checkExpr spot.expr c).2.findings = [] ∧
          spot.expr.Settled p c) ∨
        ∃ e c, p.Visits e c ∧ e.LeavesOut spot := by
  refine exists_program (P := fun p => (Checker.new.check p).findings = [] ∧
      p.spots.filterMap (·.expr.calledName?) = ["len", "print", "g", "Some"] ∧
      p.spots.filterMap (·.expr.patternNames?) = [["Some", "None"]])
    toList_ofList_append (by decide +kernel) ?_
  rintro p hp ⟨haccepted, hcalls, hmatches⟩
  exact ⟨haccepted, hcalls, hmatches, check_covers (parsed_of_readProgram hp) haccepted⟩

/-- An accepted program that calls a name that nothing has, and in which a match lacks a pattern:
both stand in a callee that is not looked at. -/
theorem check_overlooks :
    ∃ p, readProgram "" ("let a = nowhere(1)(2)\n" ++
        "let b = (match Some(1) \x7b Some(x) => x \x7d)(2)") = .ok p ∧
      (Checker.new.check p).findings = [] ∧
      p.spots.filterMap (·.expr.calledName?) = ["nowhere", "Some"] ∧ ¬ p.CanCall "nowhere" ∧
      p.spots.filterMap (·.expr.patternNames?) = [["Some"]] ∧
      ∀ type, ¬ Complete ["Some"] type := by
  refine exists_program (P := fun p => (Checker.new.check p).findings = [] ∧
      p.spots.filterMap (·.expr.calledName?) = ["nowhere", "Some"] ∧ ¬ p.CanCall "nowhere" ∧
      p.spots.filterMap (·.expr.patternNames?) = [["Some"]])
    toList_ofList_append (by decide +kernel) ?_
  rintro p hp ⟨haccepted, hcalls, hnowhere, hmatches⟩
  refine ⟨haccepted, hcalls, hnowhere, hmatches, fun type hcomplete => ?_⟩
  cases type with
  | option => exact absurd hcomplete.2 (by decide)
  | result => exact absurd hcomplete.1 (by decide)
  | plain | list => exact hcomplete

end Owl
