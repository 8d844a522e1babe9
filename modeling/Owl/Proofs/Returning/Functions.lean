/-
Functions return.

The code of a function with a value returns that value on every path, where the check
could judge the function: its signature is the one that the check has for its name,
and no callee in it is computed.

* `Plain`, `stmtsRuled_of_plain` — there are rules for all that was read, but for calls of
  computed callees.
-/
import Owl.Proofs.Returning.Certain
import Owl.Proofs.Visiting.Jumps
import Owl.Proofs.Visiting.Resolution

namespace Owl

open Checker CheckM

/-! ### Jumps -/

def Stmt.isJump : Stmt → Bool
  | .breakLoop _ | .continueLoop _ => true
  | _ => false

mutual

/-- What goes to a loop around a statement are the jumps that no loop in it is around. -/
theorem Stmt.jumps_eq : ∀ s : Stmt, s.jumps = s.unlooped.any Stmt.isJump
  | .ifElse _ thenBody none _ => by
    simp [Stmt.unlooped, Stmt.isJump, anyJumps_eq thenBody]
  | .ifElse _ thenBody (some elseBody) _ => by
    simp [Stmt.unlooped, Stmt.isJump, anyJumps_eq thenBody, anyJumps_eq elseBody]
  | .letVar .. | .assign .. | .expr .. | .ret .. | .whileLoop .. | .forLoop .. | .loop ..
  | .breakLoop _ | .continueLoop _ | .fn _ | .bare _ | .unknown => by
    simp [Stmt.unlooped, Stmt.isJump]

theorem anyJumps_eq : ∀ ss : List Stmt, anyJumps ss = (stmtsUnlooped ss).any Stmt.isJump
  | [] => rfl
  | s :: rest => by
    rw [anyJumps, stmtsUnlooped, List.any_append, s.jumps_eq, anyJumps_eq rest]

end

theorem findings_of_isJump {use : Use} {s : Stmt} {c : Checker} (h : s.isJump = true)
    (hdepth : c.loopDepth = 0) : (checkStmt use s c).2.findings ≠ [] := by
  have hrule (problem : Problem) (place : Span) :
      (loopOnlyRule problem place c).2.findings ≠ [] := by
    rw [loopOnlyRule, get_bind, hdepth]
    exact Checker.findings_addDiagnostic_ne_nil _ _
  cases s with
  | breakLoop span? | continueLoop span? =>
    exact hrule _ _
  | _ => cases h

/-- In an accepted program no function jumps to a loop around it. -/
theorem Program.not_anyJumps {p : Program} (hnil : (Checker.new.check p).findings = [])
    {fn : FnDecl} (hfn : fn ∈ p.functions) : anyJumps fn.body = false := by
  rw [anyJumps_eq, List.any_eq_false]
  intro s hs hjump
  -- The check comes to the jump with no loop open.
  have hmem : s ∈ p.unlooped := List.mem_append_left _ (List.mem_flatMap.mpr ⟨fn, hfn, hs⟩)
  obtain ⟨use, c, hreach, hdepth⟩ := Program.reaches_of_unlooped hmem
  exact findings_of_isJump hjump hdepth (hreach.retains.findings hnil)

/-! ### Bodies that were read -/

/-- Whether an expression calls something that is neither a name nor a field. -/
def Expr.callsComputed : Expr → Bool
  | .call callee _ _ => callee.isComputed
  | _ => false

/-- Words, hazards and spots of a part of a tree that was read, in which no callee is computed. -/
structure Plain (ws : List Word) (hazards : List Hazard) (spots : List Spot) : Prop where
  formed : ∀ w ∈ ws, w.Formed
  ordinary : OnlyCalls hazards
  named : ∀ spot ∈ spots, spot.expr.callsComputed = false

theorem Plain.mono {ws ws' : List Word} {hazards hazards' : List Hazard} {spots spots' : List Spot}
    (h : Plain ws hazards spots)
    (hparts : (∀ w ∈ ws', w ∈ ws) ∧ (∀ x ∈ hazards', x ∈ hazards) ∧ ∀ spot ∈ spots', spot ∈ spots) :
    Plain ws' hazards' spots' :=
  ⟨fun w hw => h.formed w (hparts.1 w hw), fun x hx => h.ordinary x (hparts.2.1 x hx),
    fun spot hspot => h.named spot (hparts.2.2 spot hspot)⟩

theorem operators_ruled : ∀ kind ∈ operatorKinds, (kind.fixedText?.all hasRule) = true := by
  decide +kernel

mutual

theorem Expr.isRuled_of_plain (around : List Pattern) (dropped : Bool) : ∀ e : Expr,
    Plain e.words e.hazards (e.spots around dropped) → e.isRuled = true
  | .int .., _ | .float .., _ | .string .., _ | .bool .., _ | .name .., _ => rfl
  | .binary left op right span?, h => by
    have hop : (Word.operator op).Formed := h.formed _ (by simp)
    have hleft := left.isRuled_of_plain around dropped (h.mono (by simp +contextual))
    have hright := right.isRuled_of_plain around dropped (h.mono (by simp +contextual))
    simp [hop.operator_all operators_ruled, hleft, hright]
  | .unary _ operand _, h | .field operand _ _, h | .propagate operand _, h => by
    simpa using operand.isRuled_of_plain around dropped (h.mono (by simp +contextual))
  | .call callee args span?, h => by
    have hcallee : callee.isComputed = false :=
      h.named ⟨around, dropped, .call callee args span?⟩ (by cases callee <;> simp)
    cases callee with
    | name name nameSpan? =>
      simpa [Expr.isComputed] using exprsRuled_of_plain around dropped
        ((Builtin.find? name).map (·.params.length)) args (h.mono (by simp +contextual))
    | field object field fieldSpan? =>
      have hobject := object.isRuled_of_plain around dropped (h.mono (by simp +contextual))
      have hargs := exprsRuled_of_plain around dropped none args (h.mono (by simp +contextual))
      simp [Expr.isComputed, hobject, hargs]
    | _ => cases hcallee -- These are the computed callees.
  | .list elements span?, h => by
    simpa using exprsRuled_of_plain around dropped none elements (h.mono (by simp +contextual))
  | .matching subject arms span?, h => by
    have hsubject := subject.isRuled_of_plain around dropped (h.mono (by simp +contextual))
    have harms := armsRuled_of_plain around dropped arms (h.mono (by simp +contextual))
    simp [hsubject, harms]
  | .stmt _, h | .unknown, h => absurd h.ordinary (not_onlyCalls_node _)

theorem exprsRuled_of_plain (around : List Pattern) (dropped : Bool) (room? : Option Nat) :
    ∀ es : List Expr, Plain (exprsWords es) (exprsHazards es) (exprsSpots around dropped room? es) →
      exprsRuled es = true
  | [], _ => rfl
  | e :: es, h => by
    have hfirst := e.isRuled_of_plain around (dropped || room? == some 0)
      (h.mono (by simp +contextual))
    have hrest := exprsRuled_of_plain around dropped (room?.map (· - 1)) es
      (h.mono (by simp +contextual))
    simp [hfirst, hrest]

theorem armsRuled_of_plain (around : List Pattern) (dropped : Bool) : ∀ arms : List Arm,
    Plain (armsWords arms) (armsHazards arms) (armsSpots around dropped arms) →
      armsRuled arms = true
  | [], _ => rfl
  | ⟨pattern, body, span?⟩ :: arms, h => by
    have hbody := body.isRuled_of_plain (pattern :: around) dropped (h.mono (by simp +contextual))
    have hrest := armsRuled_of_plain around dropped arms (h.mono (by simp +contextual))
    simp [hbody, hrest]

end

mutual

theorem Stmt.isRuled_of_plain : ∀ s : Stmt, Plain s.words s.hazards s.spots → s.isRuled = true
  | .letVar _ value _ _ _, h | .assign _ value _, h | .expr value _, h
  | .ret (some value) _, h => by
    simpa using value.isRuled_of_plain [] false (h.mono (by simp +contextual))
  | .whileLoop condition body _, h | .forLoop _ condition body _, h
  | .ifElse condition body none _, h => by
    have hcondition := condition.isRuled_of_plain [] false (h.mono (by simp +contextual))
    have hbody := stmtsRuled_of_plain body (h.mono (by simp +contextual))
    simp [hcondition, hbody]
  | .loop body _, h => by
    simpa using stmtsRuled_of_plain body (h.mono (by simp +contextual))
  | .ifElse condition thenBody (some elseBody) _, h => by
    have hcondition := condition.isRuled_of_plain [] false (h.mono (by simp +contextual))
    have hthen := stmtsRuled_of_plain thenBody (h.mono (by simp +contextual))
    have helse := stmtsRuled_of_plain elseBody (h.mono (by simp +contextual))
    simp [hcondition, hthen, helse]
  | .ret none _, _ | .breakLoop _, _ | .continueLoop _, _ | .fn _, _ | .bare _, _
  | .unknown, _ => rfl

theorem stmtsRuled_of_plain : ∀ ss : List Stmt,
    Plain (stmtsWords ss) (stmtsHazards ss) (stmtsSpots ss) → stmtsRuled ss = true
  | [], _ => rfl
  | s :: rest, h => by
    have hfirst := s.isRuled_of_plain (h.mono (by simp +contextual))
    have hrest := stmtsRuled_of_plain rest (h.mono (by simp +contextual))
    simp [hfirst, hrest]

end

/-! ### States -/

theorem CheckM.Settles.forM {α : Type} {f : α → CheckM Unit} (hkeeps : ∀ a, Keeps (f a))
    (hf : ∀ a, Settles (fun _ => True) (f a)) (as : List α) :
    Settles (fun _ => True) (as.forM f) ∧ Keeps (as.forM f) := by
  induction as with
  | nil => exact ⟨.pure trivial, .pure _⟩
  | cons a as ih =>
    obtain ⟨hrest, hrestKeeps⟩ := ih
    exact ⟨(hf a).bind (fun _ => hrestKeeps) fun _ _ => hrest, (hkeeps a).bind fun _ => hrestKeeps⟩

theorem signatureOf_settles (fn : FnDecl) :
    Settles (fun signature => IsCertain signature.returns) (signatureOf fn) := by
  obtain ⟨name, params, body, returns?, span?⟩ := fn
  cases returns? with
  | none => exact .pure rfl
  | some written => exact (readType_settles written).map fun _ ht => ht

theorem declare_settles (fn : FnDecl) : Settles (fun _ => True) (declare fn) :=
  (signatureOf_settles fn).bind (fun _ _ => .refl _) fun _ hreturns _ henv _ =>
    ⟨henv.defineFn _ hreturns, trivial⟩

theorem declare_keeps (fn : FnDecl) : Keeps (declare fn) := by
  obtain ⟨name, params, body, returns?, span?⟩ := fn
  cases returns? with
  | none => exact fun _ => .refl _
  | some written => exact fun c => (readType_walks written).keeps c

theorem defineParam_settles (p : Param) : Settles (fun _ => True) (defineParam p) := by
  obtain ⟨name, type?, span?⟩ := p
  cases type? with
  | none => exact .defineVar name rfl
  | some written =>
    exact (readType_settles written).bind (fun _ _ => .refl _) fun _ ht => .defineVar name ht

theorem Builtin.all_certain : ∀ b ∈ Builtin.all, IsCertain b.signature.returns := by
  unfold IsCertain
  decide

theorem Checker.new_certain : Checker.new.env.Certain := by
  intro s hs
  obtain rfl := List.mem_singleton.mp hs
  refine ⟨List.forall_mem_nil _, ?_⟩
  rw [new_fns]
  exact List.forall_mem_map.mpr Builtin.all_certain

/-- Where all functions and imports are known, names have certain types. -/
theorem Program.root_certain {p : Program} (hnil : p.root.findings = []) : p.root.env.Certain := by
  have hdefine (name : String) : Keeps (defineVar name { type := .any }) := fun _ => .refl _
  obtain ⟨hdeclare, -⟩ := Settles.forM declare_keeps declare_settles p.functions
  obtain ⟨himport, hkeeps⟩ := Settles.forM hdefine (fun name => .defineVar name rfl)
    (p.imports.flatMap Import.bound)
  have hroot := hdeclare.bind (fun _ => hkeeps) fun _ _ => himport
  exact (hroot Checker.new_certain hnil).1

/-- The body of a function is looked at where names have certain types. -/
theorem functionState_certain {fn : FnDecl} {c : Checker} (henv : c.env.Certain)
    (hnil : (functionState fn c).findings = []) : (functionState fn c).env.Certain := by
  obtain ⟨hparams, -⟩ := Settles.forM (fun p => (defineParam_walks p).keeps) defineParam_settles
    fn.params
  exact (hparams (c := { c with env := c.env.push }) henv.push hnil).1

/-- Each function is checked where names have certain types, and where the known functions are those
of the program. -/
theorem functions_checked {fns : List FnDecl} {c : Checker} (henv : c.env.Certain)
    (hnil : (fns.forM checkFunction c).2.findings = []) :
    ∀ fn ∈ fns, ∃ d : Checker, d.env.Certain ∧
      (∀ name, d.env.fn? name = c.env.fn? name) ∧ (checkFunction fn d).2.findings = [] := by
  induction fns generalizing c with
  | nil => exact List.forall_mem_nil _
  | cons fn fns ih =>
    have hfirst : (checkFunction fn c).2.findings = [] :=
      (checkFunctions_keeps fns _).findings hnil
    refine List.forall_mem_cons.mpr ⟨⟨c, henv, fun _ => rfl, hfirst⟩, fun f hf => ?_⟩
    -- Behind the first function only marks of use have changed.
    obtain ⟨d, hd, hfn, hchecked⟩ := ih (henv.touched (checkFunction_touched fn c)) hnil f hf
    refine ⟨d, hd, fun name => (hfn name).trans ?_, hchecked⟩
    exact fn?_of_fns (checkFunction_costs fns_account (fun _ _ => rfl) fn c) name

/-! ### Functions that were checked -/

/-- A result in which nothing is found may stand for what the function returns. -/
theorem compatible_of_resultRule {expected type : Ty} {last : Stmt} {c : Checker}
    (hnil : (resultRule expected last type c).2.findings = []) :
    expected.compatible type = true := by
  have hreport (problem : Problem) : (report problem last.place c).2.findings ≠ [] :=
    Checker.findings_addDiagnostic_ne_nil _ _
  rw [resultRule] at hnil
  split at hnil
  · exact absurd hnil (hreport _)
  · split at hnil
    · exact absurd hnil (hreport _)
    · split at hnil
      · exact absurd hnil (hreport _)
      · next hcompatible => simpa using hcompatible

/-- The body of a function with a value returns before its end, or it ends in a value. -/
theorem ends_of_checkFunction {fn : FnDecl} {c : Checker} (henv : c.env.Certain)
    (hnil : (checkFunction fn c).2.findings = []) (hruled : stmtsRuled fn.body = true)
    {signature : Signature} (hfn : c.env.fn? fn.name = some signature)
    (hvoid : signature.returns ≠ .void) (hany : signature.returns ≠ .any) :
    anyReturns fn.body = true ∨ lastYields fn.body = true := by
  have hbody := checkBody_findings_of_function hnil
  have hstate := functionState_certain henv ((checkBody_keeps false fn.body _).findings hbody)
  obtain ⟨-, htypes⟩ := checkBody_settles false fn.body hruled hstate hbody
  have hexpected : expectedReturn? (functionState fn c) = some signature.returns := by
    rw [expectedReturn?_functionState, hfn]
    simpa using hvoid
  have hinside : (checkInside fn (functionState fn c)).2.findings = [] := hnil
  rw [checkInside, get_bind, hexpected] at hinside
  cases hlast : fn.body.getLast? with
  | none =>
    -- A body without statements is a finding.
    rw [hlast] at hinside
    exact absurd hinside (Checker.findings_addDiagnostic_ne_nil _ _)
  | some last =>
    rw [hlast] at hinside
    have hif : ((if (checkBody false fn.body (functionState fn c)).1.2 then pure () else do
        resultRule signature.returns last (checkBody false fn.body (functionState fn c)).1.1
        warnUnused fn.name : CheckM Unit)
          (checkBody false fn.body (functionState fn c)).2).2.findings = [] := hinside
    rw [checkBody_returned, Bool.false_or] at hif
    by_cases hreturns : anyReturns fn.body = true
    · exact .inl hreturns
    · right
      rw [if_neg hreturns] at hif
      have hcompatible := compatible_of_resultRule <|
        Keeps.of_bind (fun _ => warnUnused_costs retains_account fn.name) hif
      -- A body that does not end in a value would have the type `Void`.
      by_contra hyields
      rw [htypes.2 (by simpa using hyields)] at hcompatible
      rcases Ty.compatible_void (henv.fn hfn) hcompatible with h | h
      · exact hany h
      · exact hvoid h

theorem readType_ne_any (written : TypeExpr) (c : Checker) : (readType written c).1 ≠ .any := by
  obtain ⟨name, params, span?⟩ := written
  have hunknown : Ty.unknown ≠ .any := by decide
  rw [readType]
  split
  · exact hunknown
  · cases hprimitive : Ty.primitive? name with
    | some t =>
      have ht : t ≠ .any := by
        rw [Ty.primitive?.eq_def] at hprimitive
        split at hprimitive <;> cases hprimitive <;> decide
      simp only
      split
      · exact ht
      · exact hunknown
    | none =>
      cases Ty.arity? name with
      | none => exact hunknown
      | some arity =>
        have hparams (ts : List Ty) : (Ty.withParams? name ts).getD .unknown ≠ .any := by
          rw [Ty.withParams?.eq_def]
          split <;> simp [Ty.any, Ty.unknown]
        simp only
        split
        · exact hparams _
        · exact hunknown

theorem FnDecl.signature_ne_any (fn : FnDecl) : fn.signature.returns ≠ .any := by
  obtain ⟨name, params, body, returns?, span?⟩ := fn
  cases returns? with
  | none =>
    show Ty.void ≠ Ty.any
    decide
  | some written => exact readType_ne_any written (alone {})

/-! ### Code of functions -/

/-- A function is judged by the check: some statement of it returns, or it is what its name stands
for and none of its callees is computed. -/
def Program.Judges (p : Program) (f : FnDecl) : Prop :=
  anyReturns f.body = true ∨
    p.declared? f.name = some f ∧ ∀ spot ∈ stmtsSpots f.body, spot.expr.callsComputed = false

theorem FnDecl.body_words (f : FnDecl) : ∀ w ∈ stmtsWords f.body, w ∈ f.words := by
  obtain ⟨name, params, body, returns?, span?⟩ := f
  simp +contextual

/-- In an accepted program no function jumps out of itself, and the body of a function with a value
that is judged returns or ends in a value. -/
theorem Program.function_ends {p : Program} (hnil : (Checker.new.check p).findings = [])
    {f : FnDecl} (hf : f ∈ p.functions) (hwords : ∀ w ∈ f.words, w.Formed)
    (hordinary : OnlyCalls (stmtsHazards f.body)) :
    anyJumps f.body = false ∧ (f.signature.returns ≠ .void → p.Judges f →
      anyReturns f.body = true ∨ lastYields f.body = true) := by
  refine ⟨p.not_anyJumps hnil hf, fun hvoid hjudges => ?_⟩
  rw [check_eq] at hnil
  have hfunctions := (checkStmts_keeps p.statements _).findings hnil
  obtain ⟨c, henv, hfn, hchecked⟩ := functions_checked
    (p.root_certain ((checkFunctions_keeps _ _).findings hfunctions)) hfunctions f hf
  rcases hjudges with hreturns | ⟨hdeclared, hnamed⟩
  · exact .inl hreturns
  · have hruled : stmtsRuled f.body = true := stmtsRuled_of_plain f.body
      ⟨fun w hw => hwords w (f.body_words w hw), hordinary, hnamed⟩
    have hsignature : c.env.fn? f.name = some f.signature := by
      rw [hfn, p.root_fn?, hdeclared]
      rfl
    exact ends_of_checkFunction henv hchecked hruled hsignature hvoid f.signature_ne_any

/-- Code for a body that returns or ends in a value returns on every path. -/
theorem BlockLaid.returned {ss : List Stmt} {gs : List Guard} {code : List Code}
    (h : BlockLaid .value ss gs code) (hjumps : anyJumps ss = false)
    (hends : anyReturns ss = true ∨ lastYields ss = true) {x : Exit}
    (hrun : BlockRuns (Code.suite code) x) :
    ∃ value?, x = .returned value? ∧ (anyBare ss = false → value?.isSome = true) := by
  have hleaves := h.leaves
  have hallowed := hrun.allowed
  rw [blockWays_suite] at hallowed
  cases x with
  | next =>
    obtain ⟨hreturns, hyields⟩ := hleaves.falls hallowed
    rw [hreturns, hyields rfl] at hends
    simp at hends
  | broke | continued =>
    have hjump := hleaves.jumps hallowed
    rw [hjumps] at hjump
    cases hjump
  | returned value? =>
    refine ⟨value?, rfl, fun hbare => ?_⟩
    cases value? with
    | none =>
      have hheld := hleaves.bare hallowed
      rw [hbare] at hheld
      cases hheld
    | some value => rfl

theorem FnsLaid.forall₂ {R : FnDecl → CodeFn → Prop} {fs : List FnDecl} {gs : List Guard}
    {fns : List CodeFn} (h : FnsLaid fs gs fns)
    (hR : ∀ f ∈ fs, ∀ gs code, BlockLaid .value f.body gs code →
      R f ⟨f.name, f.params.map Param.name, Code.suite code⟩) : List.Forall₂ R fs fns := by
  induction h with
  | nil => exact .nil
  | cons hbody _ ih =>
    rw [List.forall_mem_cons] at hR
    exact .cons (hR.1 _ _ hbody) (ih hR.2)

/-- **Functions return their values.**  Where a program is compiled, the code of a function with a
value that the check judges leaves on every path by a return, and this return has a value unless the
function holds a return without one. -/
theorem compile_returns {source text : String} (h : compile true source = .ok text) :
    ∃ p file n, readProgram Span.unknownFile source = .ok p ∧ emitProgram p 0 = (.ok file, n) ∧
      text = file.text 0 ∧
      List.Forall₂ (fun f fn => fn.name = f.name ∧
        (f.signature.returns ≠ .void → p.Judges f → ∀ x, BlockRuns fn.body x →
          ∃ value?, x = .returned value? ∧ (anyBare f.body = false → value?.isSome = true)))
        p.functions file.functions := by
  obtain ⟨p, hread, haccepted, hemit⟩ := of_compile_eq_ok h
  obtain ⟨file, n, hrun, rfl⟩ := Program.of_emit_eq_ok hemit
  obtain ⟨gs, ⟨hfunctions, -⟩, -⟩ := emitProgram_laid hrun
  obtain ⟨tokens, htokens, hparse⟩ := of_readProgram_eq_ok hread
  have hformed := (parse_formed htokens hparse).1
  have hordinary := (Program.Parsed.onlyCalls ⟨_, tokens, hparse⟩).program.1
  refine ⟨p, file, n, hread, hrun, rfl, hfunctions.forall₂ fun f hf gs code hbody => ⟨rfl, ?_⟩⟩
  intro hvoid hjudges x hx
  -- The check says how the body ends, and its layout carries this over to the code.
  obtain ⟨hjumps, hends⟩ := p.function_ends (haccepted rfl) hf (hformed f hf) (hordinary f hf)
  exact hbody.returned hjumps (hends hvoid hjudges) hx

def Program.codes (p : Program) : List (FnDecl × CodeFn) :=
  match (emitProgram p 0).1 with
  | .ok file => p.functions.zip file.functions
  | .error _ => []

def compiledFns (source : String) : List (FnDecl × CodeFn) :=
  match compile true source, readProgram Span.unknownFile source with
  | .ok _, .ok p => p.codes
  | _, _ => []

theorem compiledFns_of_toList {source : String} {cs : List Char} (h : source.toList = cs) :
    compiledFns source =
      match (do
        let p ← readChars Span.unknownFile cs
        acceptProgram p
        emitText p), readChars Span.unknownFile cs with
      | .ok _, .ok p => p.codes
      | _, _ => [] := by
  rw [compiledFns, compile_of_toList h, readProgram_of_toList h]
  rfl

/-- Whether a function is one for whole numbers, and exits are found in its code. -/
def returnsInt (exits : List Exit) (r : FnDecl × CodeFn) : Bool :=
  r.1.signature.returns == .int && exits.all ((blockExits r.2.body).contains ·)

theorem of_returnsInt {exits : List Exit} {r : FnDecl × CodeFn} (h : returnsInt exits r = true) :
    r.1.signature.returns = .int ∧ ∀ x ∈ exits, BlockRuns r.2.body x := by
  obtain ⟨hint, hexits⟩ := Bool.and_eq_true_iff.mp h
  refine ⟨eq_of_beq hint, fun x hx => blockRuns_of_exits _ ?_⟩
  simpa using List.all_eq_true.mp hexits x hx

/-- A function that returns from a loop, and whose value is that of a choice in a choice. -/
theorem compile_returns_nested :
    ∃ r ∈ compiledFns (
        "fn f(n: Int) -> Int \x7b\nfor i in [7] \x7b if i == n \x7b return i \x7d \x7d\n" ++
        "if n > 0 \x7b 1 \x7d else \x7b if n == 0 \x7b 0 \x7d else \x7b 2 \x7d \x7d\n\x7d"),
      r.1.signature.returns = .int ∧
      (∀ x ∈ [Exit.returned (some "i"), .returned (some "0")], BlockRuns r.2.body x) ∧
      ∀ x, BlockRuns r.2.body x → ∃ value, x = .returned (some value) := by
  -- The text is hidden behind a name, so that nothing evaluates it but the last line of `hfound`.
  obtain ⟨source, hsource⟩ : ∃ source,
      "fn f(n: Int) -> Int \x7b\nfor i in [7] \x7b if i == n \x7b return i \x7d \x7d\n" ++
        "if n > 0 \x7b 1 \x7d else \x7b if n == 0 \x7b 0 \x7d else \x7b 2 \x7d \x7d\n\x7d" = source :=
    ⟨_, rfl⟩
  rw [hsource]
  have hfound : (compiledFns source).length = 1 ∧ (compiledFns source).all (fun r =>
      returnsInt [.returned (some "i"), .returned (some "0")] r && !anyBare r.1.body &&
        (stmtsSpots r.1.body).all fun spot => !spot.expr.callsComputed) = true := by
    subst hsource
    rw [compiledFns_of_toList toList_ofList_append]
    decide +kernel
  cases hcompile : compile true source with
  | error e => simp [compiledFns, hcompile] at hfound
  | ok text =>
    obtain ⟨p, file, n, hread, hrun, -, hall⟩ := compile_returns hcompile
    have hfns : compiledFns source = p.functions.zip file.functions := by
      simp [compiledFns, Program.codes, hcompile, hread, hrun]
    have hlength := hall.length_eq
    rw [hfns, List.length_zip, ← hlength, Nat.min_self] at hfound
    obtain ⟨f, hf⟩ := List.length_eq_one_iff.mp hfound.1
    obtain ⟨fn, hfn⟩ := List.length_eq_one_iff.mp (hlength.symm.trans hfound.1)
    rw [hf, hfn, List.forall₂_cons] at hall
    rw [hfns, hf, hfn]
    rw [hf, hfn, List.zip_cons_cons, List.all_cons, Bool.and_eq_true, Bool.and_eq_true,
      Bool.and_eq_true] at hfound
    obtain ⟨-, ⟨⟨hreturns, hbare⟩, hnamed⟩, -⟩ := hfound
    obtain ⟨hint, hruns⟩ := of_returnsInt hreturns
    have hjudges : p.Judges f := .inr ⟨by simp [Program.declared?, hf], by simpa using hnamed⟩
    refine ⟨(f, fn), List.mem_singleton_self _, hint, hruns, fun x hx => ?_⟩
    obtain ⟨value?, rfl, hvalue⟩ := hall.1.2 (by rw [hint]; decide) hjudges x hx
    obtain ⟨value, rfl⟩ := Option.isSome_iff_exists.mp (hvalue (by simpa using hbare))
    exact ⟨value, rfl⟩

theorem exists_run_of_exits {source : String} {x : Exit}
    (h : ((compiledFns source).any fun r => returnsInt [x] r) = true) :
    ∃ r ∈ compiledFns source, r.1.signature.returns = .int ∧ BlockRuns r.2.body x := by
  obtain ⟨r, hr, hreturns⟩ := List.any_eq_true.mp h
  obtain ⟨hint, hruns⟩ := of_returnsInt hreturns
  exact ⟨r, hr, hint, hruns x (List.mem_singleton_self x)⟩

/-- Functions for whole numbers that are compiled and do not return one: a return has no value, a
branch without a value is beside a call that cannot be judged, and a later function has the name. -/
theorem compile_falls_through :
    (∃ r ∈ compiledFns "fn f() -> Int \x7b return \x7d",
      r.1.signature.returns = .int ∧ BlockRuns r.2.body (.returned none)) ∧
    (∃ r ∈ compiledFns "fn f(c) -> Int \x7b if c \x7b c()() \x7d else \x7b let y = 1 \x7d \x7d",
      r.1.signature.returns = .int ∧ BlockRuns r.2.body .next) ∧
    (∃ r ∈ compiledFns "fn f() -> Int \x7b let y = 1 \x7d\nfn f() \x7b \x7d",
      r.1.signature.returns = .int ∧ BlockRuns r.2.body .next) := by
  refine ⟨exists_run_of_exits ?_, exists_run_of_exits ?_, exists_run_of_exits ?_⟩
  all_goals
    rw [compiledFns_of_toList String.toList_ofList]
    decide +kernel

end Owl
