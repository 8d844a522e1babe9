/-
Where findings come from.

Some codes are reported for one reason only: a name that is looked up and not found,
a number of arguments, a jump outside of loops.  Whether one of these is reported at
a place is decided where the check comes to the name, the call or the jump, in the
state that it is in there.

* `Checker.Skips code` — what was found of a code stays as it is.
-/
import Owl.Proofs.Derivation
import Owl.Proofs.Visiting.Coverage

namespace Owl

open CheckM

variable {c : Checker} {place : Span} {name file : String} {us : List Token} {x : Fragment}
  {p : Program}

/-! ### Findings by code and place -/

namespace Checker

def Finds (c : Checker) (code : String) (pos : Position) : Prop :=
  ∃ f ∈ c.findings, f.code = code ∧ f.pos = pos

instance (c : Checker) (code : String) (pos : Position) : Decidable (c.Finds code pos) :=
  inferInstanceAs (Decidable (∃ f ∈ c.findings, f.code = code ∧ f.pos = pos))

theorem finds_iff_recorded {code : String} {pos : Position} :
    c.Finds code pos ↔ c.Recorded (.finding code pos) := by
  constructor
  · rintro ⟨f, hf, rfl, rfl⟩
    exact .inl (List.mem_map.mpr ⟨f, hf, rfl⟩)
  · rintro (h | h)
    · obtain ⟨f, hf, hmark⟩ := List.mem_map.mp h
      obtain ⟨hcode, hpos⟩ := Mark.finding.inj hmark
      exact ⟨f, hf, hcode, hpos⟩
    · obtain ⟨w, -, hmark⟩ := List.mem_map.mp h
      cases hmark

theorem Retains.finds {d : Checker} (h : c.Retains d) {code : String} {pos : Position}
    (hc : c.Finds code pos) : d.Finds code pos :=
  finds_iff_recorded.mpr (h _ (finds_iff_recorded.mp hc))

theorem finds_report_iff {p : Problem} {code : String} {pos : Position} :
    (report p place c).2.Finds code pos ↔
      c.Finds code pos ∨ code = p.code ∧ pos = place.start := by
  have hadds : Adds (.finding p.code place.start) c (report p place c).2 :=
    adds_addDiagnostic c (p.toDiagnostic place)
  rw [finds_iff_recorded, finds_iff_recorded, hadds.recorded, Mark.finding.injEq]

theorem finds_report (problem : Problem) (place : Span) (c : Checker) :
    (report problem place c).2.Finds problem.code place.start :=
  finds_report_iff.mpr (.inr ⟨rfl, rfl⟩)

/-- Of a code, nothing is found at more places than before but where `Q` holds. -/
def FindsOnly (code : String) (Q : Position → Prop) (c d : Checker) : Prop :=
  ∀ pos, d.Finds code pos → c.Finds code pos ∨ Q pos

namespace FindsOnly

variable {code : String} {Q Q' : Position → Prop} {c d e : Checker}

theorem of_findings (h : d.findings = c.findings) : FindsOnly code Q c d := by
  intro pos hpos
  rw [Finds, h] at hpos
  exact .inl hpos

theorem refl (c : Checker) : FindsOnly code Q c c := .of_findings rfl

theorem trans (h : FindsOnly code Q c d) (h' : FindsOnly code Q d e) : FindsOnly code Q c e := by
  intro pos hpos
  rcases h' pos hpos with hpos | hpos
  · exact h pos hpos
  · exact .inr hpos

theorem mono (h : FindsOnly code Q c d) (hQ : ∀ pos, Q pos → Q' pos) : FindsOnly code Q' c d :=
  fun pos hpos => (h pos hpos).imp_right (hQ pos)

theorem report {p : Problem} (h : code = p.code → Q place.start) (c : Checker) :
    FindsOnly code Q c (CheckM.report p place c).2 := by
  intro pos hpos
  rcases finds_report_iff.mp hpos with hpos | ⟨hcode, rfl⟩
  · exact .inl hpos
  · exact .inr (h hcode)

end FindsOnly

end Checker

open Checker

/-! ### Codes that are skipped -/

def Checker.Skips (code : String) (c d : Checker) : Prop :=
  d.findings.filter (·.code == code) = c.findings.filter (·.code == code)

theorem Checker.skips_append {code : String} (c : Checker) {f : Finding} (h : f.code ≠ code) :
    (c.findings ++ [f]).filter (·.code == code) = c.findings.filter (·.code == code) := by
  rw [List.filter_append, List.filter_cons_of_neg (by simpa using h), List.filter_nil,
    List.append_nil]

theorem Checker.skips_account {K : Kinds} {code : String} (hmatch : "E0000" ≠ code)
    (hK : ∀ problem : Problem, K problem.kind → problem.code ≠ code) :
    Account K fun _ => Skips code where
  refl c := rfl
  trans h h' := h'.trans h
  mono h _ := h
  report c p kind place := by
    rw [addDiagnostic]
    split
    · rfl
    · exact skips_append c (hK p kind)
  reportMatch c fault pos := skips_append c hmatch
  warn c _ _ _ _ := congrArg _ (findings_addWarning c _)
  warnSite c _ _ _ _ := congrArg _ (findings_addWarning c _)
  warnAlways c _ _ _ _ := rfl
  defineVar c name v := rfl
  markUsed c name := rfl
  scope h := h
  loop h := h

/-! ### Faults of fragments -/

/-- The codes of findings that are made for one reason only. -/
abbrev ownCodes : List String := ["E0302", "E0308", "E0505", "E0506"]

/-- What a fragment itself is reported for under one of these codes, and where. -/
def Fragment.fault? (c : Checker) : Fragment → Option (String × Position)
  | .expr (.name name span?) =>
    if name != "None" && (c.env.var? name).isNone then
      some ("E0302", (span?.getD .dummy).start)
    else none
  | .expr (.call (.name name _) args span?) =>
    if c.miscounts name args.length then some ("E0308", (span?.getD .dummy).start) else none
  | .stmt _ (.assign name _ span?) =>
    if (c.env.var? name).isNone then some ("E0302", (span?.getD .dummy).start) else none
  | .stmt _ (.breakLoop span?) =>
    if c.loopDepth == 0 then some ("E0505", (span?.getD .dummy).start) else none
  | .stmt _ (.continueLoop span?) =>
    if c.loopDepth == 0 then some ("E0506", (span?.getD .dummy).start) else none
  | _ => none

section Sources

variable {code : String} {Q : Position → Prop}

theorem Problem.kind_of_code {problem : Problem} (h : problem.code ∈ ownCodes) :
    problem.kind = .single := by
  cases problem <;> first | rfl | simp [code] at h

theorem single_ne_mixed : ProblemKind.single ≠ .mixed := by decide

theorem own_account (hcode : code ∈ ownCodes) : Account (· ≠ .single) fun _ => Skips code := by
  refine skips_account (fun heq => ?_) fun problem hkind heq => ?_
  · rw [← heq] at hcode
    simp at hcode
  · exact hkind (Problem.kind_of_code (heq ▸ hcode))

theorem Checker.Skips.findsOnly {d : Checker} (h : Skips code c d) : FindsOnly code Q c d := by
  rintro pos ⟨f, hf, hcode, hpos⟩
  have hmem : f ∈ d.findings.filter (·.code == code) :=
    List.mem_filter.mpr ⟨hf, beq_iff_eq.mpr hcode⟩
  rw [h] at hmem
  exact .inl ⟨f, (List.mem_filter.mp hmem).1, hcode, hpos⟩

/-- What reports other problems finds nothing of this code. -/
theorem CheckM.Walks.findsOnly {α : Type} {K : Kinds} {es : List Event} {s : Multiset Site}
    {p q : CheckM α} (h : Walks False True K es s p q) (hcode : code ∈ ownCodes)
    (hK : ¬ K .single) (c : Checker) : FindsOnly code Q c (p c).2 :=
  ((h.costs ((own_account hcode).narrow fun _ hkind heq => hK (heq ▸ hkind))) c).findsOnly

theorem report_findsOnly (problem : Problem) (hcode : code ∈ ownCodes)
    (hkind : problem.kind ≠ .single) (c : Checker) :
    FindsOnly code Q c (report problem place c).2 :=
  (report_costs (own_account hcode) hkind c).findsOnly

theorem nameRule_findsOnly
    (hown : name ≠ "None" → c.env.var? name = none → code = "E0302" → Q place.start) :
    FindsOnly code Q c (nameRule name place c).2 := by
  by_cases hname : name = "None"
  · rw [nameRule, if_pos (by simp [hname])]
    exact .refl c
  · cases hvar : c.env.var? name with
    | none =>
      rw [nameRule_of_none hname hvar]
      exact .report (hown hname hvar) c
    | some v =>
      rw [nameRule, if_neg (by simpa using hname), get_bind, hvar]
      exact .of_findings rfl

theorem assignRule_findsOnly (hcode : code ∈ ownCodes) {value : CheckM Ty}
    (hvalue : ∀ v, c.env.var? name = some v → v.isMutable = true →
      FindsOnly code Q c (value c).2)
    (hown : c.env.var? name = none → code = "E0302" → Q place.start) :
    FindsOnly code Q c (assignRule name value place c).2 := by
  cases hvar : c.env.var? name with
  | none =>
    rw [assignRule_of_none hvar]
    exact .report (hown hvar) c
  | some v =>
    rw [assignRule_of_some hvar]
    cases hmutable : v.isMutable with
    | false => exact report_findsOnly (.immutableAssignment name) hcode single_ne_mixed.symm c
    | true =>
      refine (hvalue v hvar hmutable).trans ?_
      show FindsOnly code Q _ ((ite .. : CheckM Unit) (value c).2).2
      split
      · exact .of_findings rfl
      · exact (report_findsOnly (.typeMismatch ..) hcode single_ne_mixed.symm _).trans (.of_findings rfl)

theorem ArgsRule.findsOnly {rule : List Ty → CheckM Ty} (h : ArgsRule rule) (types : List Ty)
    (hcode : code ∈ ownCodes) (c : Checker) : FindsOnly code Q c (rule types c).2 := by
  cases h with
  | pure type => exact .refl c
  | get => exact (getRule_walks _ _ _ .dummy .dummy).findsOnly hcode single_ne_mixed c
  | push => exact (pushRule_walks _ _ _ .dummy .dummy).findsOnly hcode single_ne_mixed c

theorem callRule_findsOnly (hcode : code ∈ ownCodes) {places : List Span}
    {args : CheckM (List Ty)}
    (hargs : ∀ d, argsState? name places.length place c = some d → FindsOnly code Q d (args d).2)
    (hown : c.miscounts name places.length = true → code = "E0308" → Q place.start) :
    FindsOnly code Q c (callRule name places args place c).2 := by
  have hrun := callRule_run name places args place c
  generalize callRule name places args place c = r at hrun
  cases hrun with
  | undefined type => exact report_findsOnly (.undefinedFunction name) hcode single_ne_mixed.symm c
  | refused expected type _ hcount => exact .report (hown hcount) c
  | miscounted expected type hseen hcount =>
    exact (FindsOnly.report (hown hcount) c).trans (hargs _ hseen)
  | passed hseen hcount hrule =>
    exact (hargs c hseen).trans (hrule.findsOnly _ hcode _)

theorem matchRule_findsOnly (hcode : code ∈ ownCodes) {subject : Ty}
    {arms : CheckM (List (String × Ty))}
    (harms : (expectedPatterns subject).isEmpty = false → FindsOnly code Q c (arms c).2) :
    FindsOnly code Q c (matchRule subject arms place c).2 := by
  rw [matchRule]
  split
  · exact ((own_account hcode).reportMatch c (.subject subject) place.start).findsOnly
  · next hpatterns =>
    refine (harms (by simpa using hpatterns)).trans ?_
    exact (armsRule_walks ..).findsOnly hcode single_ne_mixed _

theorem armRule_findsOnly (hcode : code ∈ ownCodes) {subject : Ty} {pattern : Pattern}
    {body : CheckM Ty}
    (hbody : (expectedPatterns subject).contains pattern.name = true →
      FindsOnly code Q (armState subject pattern c) (body (armState subject pattern c)).2) :
    FindsOnly code Q c (armRule subject pattern body c).2 := by
  rw [armRule]
  split
  · next hfits =>
    have hinside := hbody hfits
    rw [armState] at hinside
    cases hbinding : patternBinding? subject pattern with
    | none =>
      rw [hbinding] at hinside
      exact hinside
    | some binding =>
      rw [hbinding] at hinside
      exact hinside
  · exact report_findsOnly (.invalidPattern ..) hcode single_ne_mixed.symm c

theorem condition_findsOnly (hcode : code ∈ ownCodes) {condition : Expr}
    (h : FindsOnly code Q c (checkExpr condition c).2) :
    FindsOnly code Q c (conditionRule condition (checkExpr condition) c).2 := by
  have hjudged := @conditionRule_walks False True (· = .mixed) [] 0 rfl condition _ _
    (.pure (checkExpr condition c).1)
  exact h.trans (hjudged.findsOnly hcode single_ne_mixed (checkExpr condition c).2)

theorem loopOnlyRule_findsOnly {problem : Problem}
    (hown : c.loopDepth = 0 → code = problem.code → Q place.start) :
    FindsOnly code Q c (loopOnlyRule problem place c).2 := by
  rw [loopOnlyRule, get_bind]
  split
  · next hdepth => exact .report (hown (by simpa using hdepth)) c
  · exact .refl c

end Sources

/-! ### Fragments of what was read -/

def Fragment.Read (file : String) : Fragment → List Token → Prop
  | expr e, us => e.Read file us
  | exprs es, us => Parser.Parts (Expr.Read file) es us
  | arms _ choices, us => Parser.Parts (Arm.Read file) choices us
  | stmt _ s, us => s.Read file us
  | stmts ss, us | last ss, us | init ss, us | body _ ss, us => Parser.Parts (Stmt.Read file) ss us

theorem Fragment.Step.read {x y : Fragment × Checker} (h : Step x y) (hx : x.1.Read file us) :
    ∃ vs, y.1.Read file vs := by
  cases h with
  | firstArm =>
    cases hx with | cons harm _ =>
    cases harm with | mk _ _ hbody =>
    exact ⟨_, hbody⟩
  | _ => cases hx <;> exact ⟨_, by assumption⟩

/-! ### Sources of findings -/

section Steps

variable {file code : String} {Q : Position → Prop} {c : Checker}

theorem expr_findsOnly {e : Expr} (hread : e.Read file us) (hcode : code ∈ ownCodes)
    (hown : ∀ pos, (Fragment.expr e).fault? c = some (code, pos) → Q pos)
    (hsteps : ∀ y d, Fragment.Step (.expr e, c) (y, d) → FindsOnly code Q d (y.run d)) :
    FindsOnly code Q c (checkExpr e c).2 := by
  cases hread with
  | int | float | string | bool =>
    exact .refl c
  | name t =>
    refine nameRule_findsOnly fun hname hvar heq => hown _ ?_
    simp [Fragment.fault?, hname, hvar, heq]
  | @binary left right us vs hleft op hright =>
    refine (hsteps _ _ .left).trans ((hsteps _ _ .right).trans ?_)
    exact (binaryRule_walks ..).findsOnly hcode single_ne_mixed _
  | unary op hoperand =>
    refine (hsteps _ _ .operand).trans ?_
    exact (unaryRule_walks ..).findsOnly hcode single_ne_mixed _
  | @call callee args us vs hcallee opening hargs closing =>
    by_cases hcomputed : callee.isComputed = true
    · -- The check does not come to a callee that is neither a name nor a field.
      rw [checkExpr_computed hcomputed]
      exact hsteps _ _ (.computedArgs hcomputed)
    · cases callee with
      | name name nameSpan? =>
        refine callRule_findsOnly hcode (fun d hseen => ?_) fun hcount heq => hown _ ?_
        · rw [List.length_map] at hseen
          exact hsteps _ _ (.namedArgs hseen)
        · rw [List.length_map] at hcount
          simp [Fragment.fault?, hcount, heq]
      | field object field fieldSpan? =>
        have hobject := hsteps _ _ .fieldCallee
        simp only [Fragment.run, checkExpr] at hobject ⊢
        exact hobject.trans (hsteps _ _ .fieldArgs)
      | _ => exact absurd rfl hcomputed
  | field hobject name =>
    exact hsteps _ _ .object
  | propagate hoperand mark =>
    refine (hsteps _ _ .question).trans ?_
    exact (propagateRule_walks ..).findsOnly hcode single_ne_mixed _
  | list opening helements closing =>
    refine (hsteps _ _ .elements).trans ?_
    exact (listRule_walks ..).findsOnly hcode single_ne_mixed _
  | matching keyword hsubject harms =>
    refine (hsteps _ _ .subject).trans ?_
    exact matchRule_findsOnly hcode fun hpatterns => hsteps _ _ (.arms hpatterns)

theorem ifElse_findsOnly {use : Use} {condition : Expr} {thenBody : List Stmt}
    {elseBody? : Option (List Stmt)} {span? : Option Span} (hcode : code ∈ ownCodes)
    (hsteps : ∀ y d, Fragment.Step (.stmt use (.ifElse condition thenBody elseBody? span?), c)
      (y, d) → FindsOnly code Q d (y.run d)) :
    FindsOnly code Q c (checkStmt use (.ifElse condition thenBody elseBody? span?) c).2 := by
  have hcondition := condition_findsOnly hcode (hsteps _ _ .condition)
  cases use with
  | effect =>
    have hthen := hcondition.trans (hsteps _ _ .thenBody)
    cases elseBody? with
    | none =>
      exact hthen
    | some elseBody =>
      exact hthen.trans (hsteps _ _ (.elseBody rfl))
  | value =>
    -- The last statement of a branch that is used for its value comes before the others.
    have hthen := hcondition.trans ((hsteps _ _ .thenLast).trans (hsteps _ _ (.thenInit rfl)))
    rcases elseBody? with _ | _ | ⟨s, rest⟩
    · exact hthen
    · exact hthen
    · refine hthen.trans ((hsteps _ _ (.elseLast rfl)).trans ?_)
      refine (hsteps _ _ (.elseInit rfl)).trans ?_
      exact (choiceRule_walks ..).findsOnly hcode single_ne_mixed _

theorem stmt_findsOnly {use : Use} {s : Stmt} (hcode : code ∈ ownCodes)
    (hown : ∀ pos, (Fragment.stmt use s).fault? c = some (code, pos) → Q pos)
    (hsteps : ∀ y d, Fragment.Step (.stmt use s, c) (y, d) → FindsOnly code Q d (y.run d)) :
    FindsOnly code Q c (checkStmt use s c).2 := by
  cases s with
  | letVar name value type? isMutable span? =>
    refine (hsteps _ _ .letValue).trans ?_
    exact (letRule_walks ..).findsOnly hcode (fun h => h rfl) _
  | assign name value span? =>
    refine assignRule_findsOnly hcode (fun v hvar hmutable => ?_) fun hvar heq => hown _ ?_
    · exact hsteps _ _ (.assigned hvar hmutable)
    · simp [Fragment.fault?, hvar, heq]
  | expr e span? =>
    exact hsteps _ _ .exprStmt
  | ret value? span? =>
    cases value? with
    | none =>
      exact .refl c
    | some value =>
      refine (hsteps _ _ .returned).trans ?_
      exact (returnRule_walks ..).findsOnly hcode single_ne_mixed _
  | whileLoop condition body span? =>
    exact (condition_findsOnly hcode (hsteps _ _ .whileCondition)).trans
      (hsteps _ _ (.whileBody rfl))
  | forLoop item collection body span? =>
    refine (hsteps _ _ .collection).trans ?_
    have helement := @elementRule_walks False True (checkExpr collection c).1 collection.place .dummy
    refine (helement.findsOnly hcode single_ne_mixed (checkExpr collection c).2).trans ?_
    exact hsteps _ _ (.forBody rfl)
  | loop body span? =>
    refine (hsteps _ _ .loopBody).trans ?_
    show FindsOnly code Q _ ((ite .. : CheckM Ty) _).2
    split
    · exact .of_findings rfl
    · exact .of_findings (findings_addWarning _ _)
  | breakLoop span? | continueLoop span? =>
    refine loopOnlyRule_findsOnly fun hdepth heq => hown _ ?_
    simp [Fragment.fault?, hdepth, heq, Problem.code]
  | ifElse condition thenBody elseBody? span? => exact ifElse_findsOnly hcode hsteps
  | fn | bare | unknown =>
    exact .refl c

theorem bodyStmt_findsOnly (isLast : Bool) {s : Stmt} (hcode : code ∈ ownCodes)
    (h : FindsOnly code Q c (checkStmt .value s c).2) :
    FindsOnly code Q c (checkBodyStmt isLast s c).2 := by
  refine h.trans ?_
  cases s with
  | expr e span? =>
    exact (ignoredExpr_walks isLast e _).findsOnly hcode single_ne_mixed _
  | _ => exact .refl _

/-- **Findings have a source.**  What is found in a fragment was found before, or it is found in a
fragment that the check goes on to, or it is the fragment's own fault. -/
theorem Fragment.findsOnly_of_steps (hread : x.Read file us) (hcode : code ∈ ownCodes)
    (hown : ∀ pos, x.fault? c = some (code, pos) → Q pos)
    (hsteps : ∀ y d, Step (x, c) (y, d) → FindsOnly code Q d (y.run d)) :
    FindsOnly code Q c (x.run c) := by
  cases x with
  | expr e => exact expr_findsOnly hread hcode hown hsteps
  | exprs es =>
    cases es with
    | nil =>
      exact .refl c
    | cons e es =>
      exact (hsteps _ _ .firstExpr).trans (hsteps _ _ .restExprs)
  | arms subject choices =>
    cases choices with
    | nil =>
      exact .refl c
    | cons arm arms =>
      obtain ⟨pattern, body, span?⟩ := arm
      simp only [run, checkArms]
      have hfirst : FindsOnly code Q c (armRule subject pattern (checkExpr body) c).2 :=
        armRule_findsOnly hcode fun hfits => hsteps _ _ (.firstArm hfits)
      exact hfirst.trans (hsteps _ _ .restArms)
  | stmt use s => exact stmt_findsOnly hcode hown hsteps
  | stmts ss =>
    cases ss with
    | nil =>
      exact .refl c
    | cons s rest =>
      exact (hsteps _ _ .firstStmt).trans (hsteps _ _ .restStmts)
  | last ss =>
    rcases ss with _ | ⟨s, _ | ⟨s', rest⟩⟩
    · exact .refl c
    · simp only [run, checkLast]
      exact hsteps _ _ .lastStmt
    · simp only [run, checkLast]
      exact hsteps _ _ .restLast
  | init ss =>
    rcases ss with _ | ⟨s, _ | ⟨s', rest⟩⟩
    · exact .refl c
    · exact .refl c
    · exact (hsteps _ _ .firstInit).trans (hsteps _ _ .restInit)
  | body returned ss =>
    rcases ss with _ | ⟨s, rest⟩
    · exact .refl c
    · have hwarned : FindsOnly code Q c (bodyState returned s c) := by
        rw [bodyState]
        split
        · exact .of_findings (findings_addWarning _ _)
        · exact .refl c
      have hfirst := hwarned.trans
        (bodyStmt_findsOnly rest.isEmpty hcode (hsteps _ _ .firstOfBody))
      simp only [run, checkBody_cons]
      cases rest with
      | nil => exact hfirst
      | cons s' rest => exact hfirst.trans (hsteps _ _ (.restOfBody rfl))

/-- All that is found in a fragment has its source in a fault of a fragment that the check comes
to. -/
theorem Fragment.findsOnly_faults (hread : x.Read file us) (hcode : code ∈ ownCodes) (c : Checker) :
    FindsOnly code (fun pos => ∃ y d, Relation.ReflTransGen Step (x, c) (y, d) ∧
      y.fault? d = some (code, pos)) c (x.run c) := by
  -- Every step is to a smaller fragment, but to one of another kind and in another state.
  induction hsize : x.size using Nat.strong_induction_on generalizing x us c with
  | h n ih =>
    refine findsOnly_of_steps hread hcode (fun pos hfault => ⟨x, c, .refl, hfault⟩) ?_
    intro y d hstep
    obtain ⟨vs, hy⟩ := hstep.read hread
    have hlt : y.size < n := hsize ▸ hstep.size_lt
    refine (ih y.size hlt hy d rfl).mono ?_
    rintro pos ⟨z, e, hreach, hfault⟩
    exact ⟨z, e, .head hstep hreach, hfault⟩

/-- What is found in a function is found in its body. -/
theorem checkFunction_findsOnly {fn : FnDecl} (hcode : code ∈ ownCodes)
    (hbody : FindsOnly code Q (functionState fn c)
      (checkBody false fn.body (functionState fn c)).2) :
    FindsOnly code Q c (checkFunction fn c).2 := by
  have hparams : FindsOnly code Q { c with env := c.env.push } (functionState fn c) :=
    (defineParams_walks fn.params).findsOnly hcode (fun h => h rfl) _
  show FindsOnly code Q _ (checkInside fn (functionState fn c)).2
  rw [checkInside_eq]
  exact (hparams.trans hbody).trans ((endRule_walks trivial fn _ _).findsOnly hcode single_ne_mixed _)

theorem checkFunctions_findsOnly (hcode : code ∈ ownCodes) (fns : List FnDecl) (c : Checker)
    (hbodies : ∀ start ∈ functionStarts fns c,
      FindsOnly code Q start.2 (start.1.run start.2)) :
    FindsOnly code Q c (fns.forM checkFunction c).2 := by
  induction fns generalizing c with
  | nil => exact .refl c
  | cons fn fns ih =>
    obtain ⟨hfirst, hrest⟩ := List.forall_mem_cons.mp hbodies
    exact (checkFunction_findsOnly hcode hfirst).trans (ih _ hrest)

end Steps

/-! ### Programs -/

theorem FnDecl.Read.inside {fn : FnDecl} (h : fn.Read file us) :
    (∀ param ∈ fn.params, param.Unplaced) ∧ ∃ vs, Parser.Parts (Stmt.Read file) fn.body vs := by
  cases h with
  | mk keyword name hparams hreturns hbody => exact ⟨hparams, _, hbody⟩

theorem Program.Read.starts (h : p.Read file) : ∀ start ∈ p.starts, ∃ us, start.1.Read file us := by
  intro start hstart
  have hblock : start.1 ∈ p.blocks := p.starts_fst ▸ List.mem_map_of_mem hstart
  rcases List.mem_append.mp hblock with hblock | hblock
  · obtain ⟨fn, hfn, hfirst⟩ := List.mem_map.mp hblock
    obtain ⟨us, hread⟩ := h.functions fn hfn
    rw [← hfirst]
    exact hread.inside.2
  · rw [List.mem_singleton.mp hblock]
    exact h.statements

theorem Program.Reaches.read (hp : p.Read file) (h : p.Reaches x c) : ∃ us, x.Read file us :=
  h.invariant (P := fun y => ∃ us, y.1.Read file us) hp.starts fun hstep hx =>
    hx.elim fun _ hread => hstep.read hread

/-- Before the code of a program is looked at, nothing is found but in written types. -/
theorem not_finds_root (p : Program) {code : String} (hcode : code ∈ ownCodes) (pos : Position) :
    ¬ p.root.Finds code pos := by
  have hR := own_account hcode
  have hdeclare : ∀ fn, Costs (fun _ => Skips code) 0 (declare fn) :=
    fun fn => .free_bind hR (signatureOf_costs hR (fun _ => id) fn) fun _ _ => rfl
  have hdeclared : FindsOnly code (fun _ => False) Checker.new (p.functions.forM declare new).2 :=
    Skips.findsOnly (Costs.forM hR hdeclare p.functions new)
  intro hroot
  rcases hdeclared.trans ((imports_walks _).findsOnly hcode id _) pos hroot with hnew | hfalse
  · obtain ⟨f, hf, -⟩ := hnew
    cases hf
  · exact hfalse

theorem callRule_finds {places : List Span} {args : CheckM (List Ty)} (hargs : Keeps args)
    (h : c.miscounts name places.length = true) :
    (callRule name places args place c).2.Finds "E0308" place.start := by
  have hrun := callRule_run name places args place c
  generalize callRule name places args place c = r at hrun
  cases hrun with
  | undefined _ _ hcount | passed _ hcount =>
    rw [h] at hcount
    cases hcount
  | refused expected type => exact finds_report (.wrongArgCount name expected _) place c
  | miscounted expected type =>
    have hreported := finds_report (.wrongArgCount name expected places.length) place c
    exact (hargs.map (fun _ => type) _).finds hreported

theorem loopOnlyRule_finds (problem : Problem) (h : c.loopDepth = 0) :
    (loopOnlyRule problem place c).2.Finds problem.code place.start := by
  rw [loopOnlyRule, get_bind, if_pos (by simpa using h)]
  exact finds_report problem place c

/-- A fault is found where it is. -/
theorem Fragment.finds_of_fault {code : String} {pos : Position}
    (h : x.fault? c = some (code, pos)) : (x.run c).Finds code pos := by
  rw [fault?.eq_def] at h
  split at h
  · next name span? =>
    obtain ⟨hundefined, heq⟩ := Option.ite_none_right_eq_some.mp h
    obtain ⟨hname, hvar⟩ := Bool.and_eq_true_iff.mp hundefined
    cases heq
    simp only [run, checkExpr]
    rw [nameRule_of_none (by simpa using hname) (by simpa using hvar)]
    exact finds_report (.undefinedVariable name) _ c
  · obtain ⟨hcount, heq⟩ := Option.ite_none_right_eq_some.mp h
    cases heq
    refine callRule_finds (checkExprs_keeps _) ?_
    rwa [List.length_map]
  · next name value span? =>
    obtain ⟨hvar, heq⟩ := Option.ite_none_right_eq_some.mp h
    cases heq
    have hrun := assignRule_of_none (Option.isNone_iff_eq_none.mp hvar) (checkExpr value)
      (span?.getD .dummy)
    simp only [run, checkStmt]
    show (assignRule name (checkExpr value) (span?.getD .dummy) c).2.Finds _ _
    rw [hrun]
    exact finds_report (.undefinedVariable name) _ c
  · obtain ⟨hdepth, heq⟩ := Option.ite_none_right_eq_some.mp h
    cases heq
    exact loopOnlyRule_finds .breakOutsideLoop (by simpa using hdepth)
  · obtain ⟨hdepth, heq⟩ := Option.ite_none_right_eq_some.mp h
    cases heq
    exact loopOnlyRule_finds .continueOutsideLoop (by simpa using hdepth)
  · cases h

/-- **Where findings come from.**  In a program that was read, an undefined variable, a wrong number
of arguments or a jump outside of loops is found at a place exactly if the check comes to a fragment
that has this fault there. -/
theorem check_finds_iff (hp : p.Read file) {code : String} (hcode : code ∈ ownCodes)
    {pos : Position} :
    (Checker.new.check p).Finds code pos ↔
      ∃ x c, p.Reaches x c ∧ x.fault? c = some (code, pos) := by
  constructor
  · intro hfound
    have hstart : ∀ start ∈ p.starts,
        FindsOnly code (fun pos => ∃ x c, p.Reaches x c ∧ x.fault? c = some (code, pos))
          start.2 (start.1.run start.2) := by
      intro start hstart
      obtain ⟨us, hread⟩ := hp.starts start hstart
      refine (Fragment.findsOnly_faults hread hcode start.2).mono ?_
      rintro pos ⟨y, d, hreach, hfault⟩
      exact ⟨y, d, ⟨start, hstart, hreach⟩, hfault⟩
    -- Functions are checked before statements, and nothing of these codes is found before both.
    have hfunctions := checkFunctions_findsOnly hcode p.functions p.root
      fun start hmem => hstart start (List.mem_append_left _ hmem)
    have hstatements := hstart _ (List.mem_append_right _ (List.mem_singleton_self _))
    rcases hfunctions.trans hstatements pos hfound with hroot | hfault
    · exact absurd hroot (not_finds_root p hcode pos)
    · exact hfault
  · rintro ⟨x, c, hreach, hfault⟩
    exact hreach.retains.finds (Fragment.finds_of_fault hfault)

end Owl
