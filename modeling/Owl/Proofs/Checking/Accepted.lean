/-
Accepted programs are scoped.

A check that finds nothing has found every name that it looked up, and what it
assigned could change.  So all look-ups of an accepted program hold as it is
checked, and those of names that are not loose hold as it is written.
-/
import Owl.Proofs.Checking.Frames
import Owl.Proofs.Scoping.Lexical

namespace Owl

open Checker CheckM

variable {c : Checker} {inside : Prop} {K : Kinds} {es : List Event} {s : Multiset Site}
  {name : String} {place : Span}

/-! ### Findings stay -/

theorem Checker.findings_addDiagnostic_ne_nil (c : Checker) (x : Diagnostic) :
    (c.addDiagnostic x).findings ≠ [] := by
  rw [addDiagnostic]
  split
  · next hreported =>
    intro hnil
    rw [hasReported, hnil] at hreported
    cases hreported
  · exact List.append_ne_nil_of_right_ne_nil _ (List.cons_ne_nil _ _)

theorem Checker.findings_addWarning (c : Checker) (w : Warning) :
    (c.addWarning w).findings = c.findings := by
  rw [addWarning]
  split <;> rfl

/-- Once something was found, whatever a check does there is a finding. -/
theorem Checker.found_congruence : Congruence fun _ _ c d => c = d ∧ c.findings ≠ [] where
  var? h name := by rw [h.1]
  fn? h name := by rw [h.1]
  returns? h := by rw [h.1]
  loopDepth h := by rw [h.1]
  recording :=
    { addDiagnostic := fun h x => ⟨by rw [h.1], findings_addDiagnostic_ne_nil _ x⟩
      finding := fun h f => ⟨by rw [h.1], List.append_ne_nil_of_left_ne_nil h.2 _⟩
      addWarning := fun h w => ⟨by rw [h.1], by rw [findings_addWarning]; exact h.2⟩
      warning := fun h w => ⟨by rw [h.1], h.2⟩ }
  defineVar h name v := ⟨by rw [h.1], h.2⟩
  markUsed h name := ⟨by rw [h.1], h.2⟩
  push h := ⟨by rw [h.1], h.2⟩
  pop h := ⟨by rw [h.1], h.2⟩
  enter h := ⟨by rw [h.1], h.2⟩
  leave h := ⟨by rw [h.1], h.2⟩

theorem CheckM.Walks.findings_eq_nil {strict : Prop} {α : Type} {p q : CheckM α}
    (h : Walks strict inside K es s p q) (hnil : (p c).2.findings = []) : c.findings = [] := by
  by_contra hfound
  exact (h.steady found_congruence (fun _ _ _ _ _ h => by rw [h.1]) (n := 0) (l := 0)
    ⟨rfl, hfound⟩).2.2 hnil

/-! ### Look-ups that find nothing wrong -/

theorem var?_isSome_of_nameRule (hname : name ≠ "None")
    (hnil : (nameRule name place c).2.findings = []) : (c.env.var? name).isSome = true := by
  by_contra hnone
  rw [nameRule_of_none hname (Option.not_isSome_iff_eq_none.mp hnone)] at hnil
  exact findings_addDiagnostic_ne_nil _ _ hnil

theorem of_assignRule {value : CheckM Ty} (hnil : (assignRule name value place c).2.findings = []) :
    (c.env.var? name).map Variable.isMutable = some true ∧ (value c).2.findings = [] := by
  have hreported : ∀ problem, (report problem place c).2.findings ≠ [] :=
    fun problem => findings_addDiagnostic_ne_nil _ _
  cases hvar : c.env.var? name with
  | none =>
    rw [assignRule_of_none hvar] at hnil
    exact absurd hnil (hreported _)
  | some v =>
    rw [assignRule_of_some hvar] at hnil
    cases hmutable : v.isMutable with
    | false =>
      rw [hmutable] at hnil
      exact absurd hnil (hreported _)
    | true =>
      refine ⟨by rw [Option.map_some, hmutable], ?_⟩
      rw [hmutable] at hnil
      have hrest : ((do
          unless v.type.compatible (value c).1 do
            report (.typeMismatch v.type.text (value c).1.text none) place
          modifyEnv (·.markUsed name) : CheckM Unit) (value c).2).2.findings = [] := hnil
      split at hrest
      · exact hrest
      · exact absurd hrest (findings_addDiagnostic_ne_nil _ _)

theorem of_functionRule {count : Nat} {args args' : CheckM (List Ty)}
    (hargs : Walks True inside K es s args args')
    (hnil : (functionRule name count args place c).2.findings = []) :
    ((c.env.fn? name).isSome = true ∨ (c.env.var? name).isSome = true) ∧
      (args c).2.findings = [] := by
  cases hfn : c.env.fn? name with
  | some signature =>
    refine ⟨.inl rfl, ?_⟩
    rw [functionRule_of_some hfn] at hnil
    split at hnil
    · -- The arguments are checked after the report, and add to it.
      have hreported := (hargs.map fun _ => signature.returns).findings_eq_nil hnil
      exact absurd hreported (findings_addDiagnostic_ne_nil _ _)
    · exact hnil
  | none =>
    rw [functionRule_of_none hfn] at hnil
    split at hnil
    · next hany =>
      refine ⟨.inr ?_, hnil⟩
      cases hvar : c.env.var? name with
      | none =>
        rw [hvar] at hany
        cases hany
      | some v => rfl
    · exact absurd hnil (findings_addDiagnostic_ne_nil _ _)

/-! ### Walks -/

def Known (known : List String) (F : List (Table Signature)) : Prop :=
  ∀ name, (F.findSome? (·.get? name)).isSome = true → name ∈ known

/-- The look-ups of a check that finds nothing hold. -/
theorem CheckM.Walks.scoped {known : List String} {α : Type} {p q : CheckM α}
    (h : Walks True inside K es s p q) {Γ : Frames} {F : List (Table Signature)}
    (hF : Known known F) (hc : c.env.Shape Γ F) (hnil : (p c).2.findings = []) :
    Scoped [] known Γ es := by
  induction h generalizing Γ F c with
  | pure | warn | warnSite | warnAlways | warnUnused => trivial
  | bind hp hf ihp ihf =>
    -- Findings stay, so there was none in between.
    have hmid := (hf _).findings_eq_nil hnil
    exact scoped_append.mpr ⟨ihp hF hc hmid, ihf _ hF (hp.shape hc) hnil⟩
  | spare _ _ ih | widen _ _ ih => exact ih hF hc hnil
  | look _ _ ih => exact ih c hF hc hnil
  | report => exact absurd hnil (findings_addDiagnostic_ne_nil _ _)
  | reportMatch => exact absurd hnil (List.append_ne_nil_of_right_ne_nil _ (List.cons_ne_nil _ _))
  | @name _ name _ hname =>
    have hvar := var?_isSome_of_nameRule hname hnil
    rw [← Option.isSome_map (f := Variable.isMutable), hc.var?] at hvar
    exact ⟨.inl hvar, trivial⟩
  | function _ _ name count _ _ hargs _ ih =>
    obtain ⟨hcallee, hrun⟩ := of_functionRule hargs hnil
    rw [hc.fn?, ← Option.isSome_map (f := Variable.isMutable), hc.var?] at hcallee
    refine ⟨.inl (hcallee.imp_left (hF name)), ?_⟩
    exact ih hF hc hrun
  | assign _ _ name _ _ _ _ ih =>
    obtain ⟨hvar, hvalue⟩ := of_assignRule hnil
    rw [hc.var?] at hvar
    refine ⟨.inl hvar, ?_⟩
    exact ih hF hc hvalue
  | declare => exact ⟨.inl trivial, trivial⟩
  | marked _ _ ih => exact ih hF hc hnil
  | scope _ ih =>
    refine scoped_bracket.mpr (ih ?_ (c := { c with env := c.env.push }) hc.push hnil)
    exact hF
  | loop _ ih => exact ih hF (c := { c with loopDepth := c.loopDepth + 1 }) hc hnil

/-! ### Programs -/

/-- The names of functions that a program can call: those of the language and its own. -/
def Program.known (p : Program) : List String :=
  Builtin.all.map Builtin.name ++ p.functions.map FnDecl.name

section Programs

variable {known : List String} {Γ : Frames} {f : Frame} {F : List (Table Signature)} {c : Checker}

theorem functionInside_scoped {fn : FnDecl} (hbody : OnlyCalls (stmtsHazards fn.body))
    (hF : Known known F) (hc : c.env.Shape Γ F) (hnil : (functionInside fn c).2.findings = []) :
    Scoped [] known Γ (declareAll (fn.params.map Param.name) ++ bodyEvents .checked fn.body) ∧
      c.findings = [] := by
  have hparams := @defineParams_walks True True fn.params
  have hinside := @checkInside_walks True True trivial fn fun _ => hbody
  have hshape := hparams.shape hc
  generalize hd : (fn.params.forM defineParam c).2 = d at hshape
  have hend : (checkInside fn
      { d with returns? := (d.env.fn? fn.name).map (·.returns) }).2.findings = [] := by
    subst hd
    exact hnil
  have hfound := hinside.findings_eq_nil hend
  have hdefined : (fn.params.forM defineParam c).2.findings = [] := by
    rw [hd]
    exact hfound
  refine ⟨scoped_append.mpr ⟨hparams.scoped hF hc hdefined, ?_⟩, hparams.findings_eq_nil hdefined⟩
  refine hinside.scoped hF ?_ hend
  exact hshape

theorem checkFunctions_scoped {fns : List FnDecl}
    (hbodies : ∀ fn ∈ fns, OnlyCalls (stmtsHazards fn.body)) (hF : Known known F)
    (hc : c.env.Shape Γ F) (hnil : (fns.forM checkFunction c).2.findings = []) :
    Scoped [] known Γ (fns.flatMap (FnDecl.events .checked)) ∧ c.findings = [] := by
  induction fns generalizing c with
  | nil => exact ⟨trivial, hnil⟩
  | cons fn fns ih =>
    rw [List.forall_mem_cons] at hbodies
    have hnext := hc.of_touched (checkFunction_touched fn c)
    obtain ⟨hrest, hfirst⟩ := ih hbodies.2 hnext hnil
    obtain ⟨hinside, hstart⟩ := functionInside_scoped (c := { c with env := c.env.push })
      hbodies.1 (F := [] :: F) hF hc.push hfirst
    rw [List.flatMap_cons, scoped_append, (FnDecl.events_closed hbodies.1).after_eq]
    exact ⟨⟨scoped_bracket.mpr hinside, hrest⟩, hstart⟩

theorem checkProgram_scoped {p : Program} (hp : OnlyCalls p.hazards) {t : Table Signature}
    (ht : ∀ name, (t.get? name).isSome = true → name ∈ Builtin.all.map Builtin.name)
    (hc : c.env.Shape Γ [t]) (hnil : (checkProgram p c).2.findings = []) :
    Scoped [] p.known Γ (p.events .checked) := by
  obtain ⟨hbodies, hstatements⟩ := hp.program
  obtain ⟨rows, hkeys, hdeclared⟩ := declares_shape p.functions hc
  have hF : Known p.known [t.putAll rows] := by
    -- A name of the table was declared, or it was there before.
    intro name hname
    by_cases hrow : name ∈ rows.map Prod.fst
    · refine List.mem_append_right _ ?_
      rw [← hkeys]
      exact hrow
    · refine List.mem_append_left _ (ht name ?_)
      rw [← Table.get?_putAll_of_not_mem hrow]
      simpa using hname
  have himports := @imports_walks True False (p.imports.flatMap Import.bound)
  have hstmts := @checkStmts_walks True False p.statements fun _ => hstatements
  have himported := himports.shape hdeclared
  have hfound := hstmts.findings_eq_nil hnil
  obtain ⟨hfunctions, hstart⟩ := checkFunctions_scoped hbodies hF himported hfound
  rw [Program.events, scoped_append, scoped_append, (functionsEvents_closed hbodies).after_eq]
  exact ⟨himports.scoped hF hdeclared hstart, hfunctions,
    hstmts.scoped hF (checkFunctions_shape p.functions himported) hnil⟩

end Programs

/-- **Accepted programs are scoped.**  Every name that is used in an accepted program is declared
before, in a scope that is still open, and every name that is assigned is declared there as one that
can change.  This holds as the program is checked, where the blocks of choices and of loops without
a variable are no scopes.  As it is written, it holds for all names but those that are declared
directly in such a block, or mentioned in a callee that is not checked. -/
theorem check_scoped {p : Program} (hp : p.Parsed) (h : (Checker.new.check p).findings = []) :
    Scoped [] p.known [[]] (p.events .checked) ∧
      Scoped p.loose p.known [[]] (p.events .lexical) := by
  have hkeys : Checker.new.env.scope.fns.keys = Builtin.all.map Builtin.name := by decide +kernel
  have hchecked : Scoped [] p.known [[]] (p.events .checked) := by
    refine checkProgram_scoped hp.onlyCalls (fun name hname => ?_) new_shape h
    rw [← hkeys]
    exact Table.mem_keys hname
  exact ⟨hchecked, Program.scoped_lexical hp.onlyCalls hchecked⟩

/-- A program in which the readings agree: the name that is declared in a block is declared in the
block of a loop with a variable. -/
theorem check_scoped_loops :
    ∃ p, readProgram "" ("let mut n = 0\nfor x in [1, 2] \x7b\nlet y = x\nn = n + y\n\x7d\n" ++
        "while n > 1 \x7b n = n - 1 \x7d") = .ok p ∧
      (Checker.new.check p).findings = [] ∧ p.loose = [] ∧
      Scoped [] p.known [[]] (p.events .lexical) := by
  refine exists_program (P := fun p => (Checker.new.check p).findings = [] ∧ p.loose = [])
    toList_ofList_append (by decide +kernel) ?_
  rintro p hp ⟨haccepted, hloose⟩
  obtain ⟨-, hwritten⟩ := check_scoped (parsed_of_readProgram hp) haccepted
  rw [hloose] at hwritten
  exact ⟨haccepted, hloose, hwritten⟩

/-- An accepted program that uses a name outside of the block in which it is declared. -/
theorem check_leaks :
    ∃ p, readProgram "" "if true \x7b let x = 1 \x7d\nprint(x)" = .ok p ∧
      (Checker.new.check p).findings = [] ∧ p.loose = ["x"] ∧
      ¬ Scoped [] p.known [[]] (p.events .lexical) :=
  exists_program String.toList_ofList (by decide +kernel) fun _ _ h => h

end Owl
