/-
What a check can see of its state.

A check looks at types, at what can change, at signatures, at the type that is
to be returned and at the number of loops; it looks at neither what is recorded
nor at which variables were used.  So two runs of a check that start in states
related by what it can see give the same value and stay related.

* `Checker.Recorded` — the findings by code and place, and the warnings by code,
  place and message; every way to record something adds one mark to these;
* `CheckM.Walks.steady` — all that a check can do keeps every `Congruence`.
-/
import Owl.Proofs.Checking.Walk

namespace Owl

variable {name : String} {c : Checker}

/-! ### Marks -/

/-- What makes two reports the same: code and place of a finding; code, place and message of a
warning. -/
inductive Mark
  | finding (code : String) (pos : Position)
  | warning (code : String) (pos? : Option Position) (message : String)
deriving DecidableEq, Repr

def Finding.mark (f : Finding) : Mark := .finding f.code f.pos

def Warning.mark (w : Warning) : Mark := .warning w.code (w.span?.map Span.start) w.message

theorem Warning.mark_eq_of_key? {v w : Warning} (hspan : w.span?.isSome) (h : v.key? = w.key?) :
    v.mark = w.mark := by
  obtain ⟨span, hw⟩ := Option.isSome_iff_exists.mp hspan
  cases hv : v.span? with
  | none => simp [key?, hv, hw] at h
  | some span' =>
    simp only [key?, hv, hw, Option.map_some, Option.some.injEq, Prod.mk.injEq] at h
    simp [mark, hv, hw, h.1, h.2.1, h.2.2]

namespace Checker

def Recorded (c : Checker) (m : Mark) : Prop :=
  m ∈ c.findings.map Finding.mark ∨ m ∈ c.warnings.map Warning.mark

theorem findings_eq_nil_iff : c.findings = [] ↔ ∀ code pos, ¬ c.Recorded (.finding code pos) := by
  constructor
  · intro hnil code pos hrecorded
    rcases hrecorded with hfinding | hwarning
    · rw [hnil] at hfinding
      cases hfinding
    · obtain ⟨w, -, hw⟩ := List.mem_map.mp hwarning
      cases hw
  · intro hnone
    rw [List.eq_nil_iff_forall_not_mem]
    intro f hf
    exact hnone f.code f.pos (.inl (List.mem_map_of_mem hf))

/-- To the marks of a state, `m` is added; all else stays. -/
structure Adds (m : Mark) (c c' : Checker) : Prop where
  env : c'.env = c.env
  returns? : c'.returns? = c.returns?
  loopDepth : c'.loopDepth = c.loopDepth
  recorded : ∀ k, c'.Recorded k ↔ c.Recorded k ∨ k = m

theorem adds_finding (c : Checker) (f : Finding) :
    Adds f.mark c { c with findings := c.findings ++ [f] } := by
  refine ⟨rfl, rfl, rfl, fun k => ?_⟩
  simp only [Recorded, List.map_append, List.mem_append, List.map_cons, List.map_nil,
    List.mem_singleton]
  grind

theorem adds_warning (c : Checker) (w : Warning) :
    Adds w.mark c { c with warnings := c.warnings ++ [w] } := by
  refine ⟨rfl, rfl, rfl, fun k => ?_⟩
  simp only [Recorded, List.map_append, List.mem_append, List.map_cons, List.map_nil,
    List.mem_singleton]
  grind

/-- A mark that is there already can be added without a change. -/
theorem Adds.same {m : Mark} (h : c.Recorded m) : Adds m c c := by
  refine ⟨rfl, rfl, rfl, fun k => ⟨Or.inl, ?_⟩⟩
  rintro (hk | rfl)
  · exact hk
  · exact h

/-- A diagnostic adds its mark, whether it is recorded or dropped. -/
theorem adds_addDiagnostic (c : Checker) (d : Diagnostic) :
    Adds (Finding.diagnostic d).mark c (c.addDiagnostic d) := by
  rw [addDiagnostic]
  split
  · next h =>
    -- What is dropped has the mark of a diagnostic that is there.
    obtain ⟨d', hd', hsame⟩ := List.any_eq_true.mp h
    obtain ⟨f, hf, hdiagnostic⟩ := List.mem_filterMap.mp hd'
    refine .same (.inl (List.mem_map.mpr ⟨f, hf, ?_⟩))
    cases f with
    | matchFault fault pos => cases hdiagnostic
    | diagnostic d'' =>
      cases hdiagnostic
      simp only [Bool.and_eq_true, beq_iff_eq] at hsame
      rw [Finding.mark, Finding.mark, Finding.code, Finding.code, Finding.pos, Finding.pos,
        hsame.1, hsame.2]
  · exact adds_finding c _

/-- A warning adds its mark, whether it is recorded or dropped. -/
theorem adds_addWarning (c : Checker) (w : Warning) : Adds w.mark c (c.addWarning w) := by
  rw [addWarning]
  split
  · next h =>
    obtain ⟨hspan, hany⟩ := Bool.and_eq_true_iff.mp h
    obtain ⟨v, hv, hkey⟩ := List.any_eq_true.mp hany
    refine .same (.inr (List.mem_map.mpr ⟨v, hv, ?_⟩))
    exact Warning.mark_eq_of_key? hspan (beq_iff_eq.mp hkey)
  · exact adds_warning c w

end Checker

/-! ### Congruences -/

/-- A variable as a check sees it: whether it was used does not show. -/
def Variable.settled (v : Variable) : Variable := { v with used := false }

def Variable.look (v : Variable) : Ty × Bool := (v.type, v.isMutable)

theorem Variable.map_look {f : Variable → Variable} (hf : ∀ v, (f v).look = v.look)
    {v? w? : Option Variable} (h : v?.map f = w?.map f) : v?.map look = w?.map look := by
  have hlook := congrArg (Option.map look) h
  simpa only [Option.map_map, Function.comp_def, hf] using hlook

namespace Checker

/-- A relation that is kept when the same thing is recorded in both states. -/
structure Recording (R : Nat → Nat → Checker → Checker → Prop) : Prop where
  addDiagnostic {n l : Nat} {c d : Checker} (h : R n l c d) (x : Diagnostic) :
    R n l (c.addDiagnostic x) (d.addDiagnostic x)
  finding {n l : Nat} {c d : Checker} (h : R n l c d) (f : Finding) :
    R n l { c with findings := c.findings ++ [f] } { d with findings := d.findings ++ [f] }
  addWarning {n l : Nat} {c d : Checker} (h : R n l c d) (w : Warning) :
    R n l (c.addWarning w) (d.addWarning w)
  warning {n l : Nat} {c d : Checker} (h : R n l c d) (w : Warning) :
    R n l { c with warnings := c.warnings ++ [w] } { d with warnings := d.warnings ++ [w] }

/-- It is enough that the relation is kept when one mark is added to both states. -/
theorem Recording.of_adds {R : Nat → Nat → Checker → Checker → Prop}
    (hR : ∀ {n l : Nat} {c d c' d' : Checker} {m : Mark}, R n l c d → Adds m c c' → Adds m d d' →
      R n l c' d') : Recording R where
  addDiagnostic h x := hR h (adds_addDiagnostic _ x) (adds_addDiagnostic _ x)
  finding h f := hR h (adds_finding _ f) (adds_finding _ f)
  addWarning h w := hR h (adds_addWarning _ w) (adds_addWarning _ w)
  warning h w := hR h (adds_warning _ w) (adds_warning _ w)

/-- What is said of environments only is kept by all that is recorded. -/
theorem recording_of_env (P : Env → Prop) : Recording fun _ _ c d => c = d ∧ P c.env where
  addDiagnostic {n l c d} h x := by
    obtain ⟨rfl, h⟩ := h
    refine ⟨rfl, ?_⟩
    rw [(adds_addDiagnostic c x).env]
    exact h
  finding h f := by
    obtain ⟨rfl, h⟩ := h
    exact ⟨rfl, h⟩
  addWarning {n l c d} h w := by
    obtain ⟨rfl, h⟩ := h
    refine ⟨rfl, ?_⟩
    rw [(adds_addWarning c w).env]
    exact h
  warning h w := by
    obtain ⟨rfl, h⟩ := h
    exact ⟨rfl, h⟩

/-- Relations between states that look the same to a check, `n` scopes and `l` loops further inside
than where it started. -/
structure Congruence (R : Nat → Nat → Checker → Checker → Prop) : Prop where
  var? {n l : Nat} {c d : Checker} (h : R n l c d) (name : String) :
    (c.env.var? name).map Variable.settled = (d.env.var? name).map Variable.settled
  fn? {n l : Nat} {c d : Checker} (h : R n l c d) (name : String) : c.env.fn? name = d.env.fn? name
  returns? {n l : Nat} {c d : Checker} (h : R n l c d) : c.returns? = d.returns?
  loopDepth {n l : Nat} {c d : Checker} (h : R n l c d) : c.loopDepth = d.loopDepth
  recording : Recording R
  defineVar {n l : Nat} {c d : Checker} (h : R n l c d) (name : String) (v : Variable) :
    R n l { c with env := c.env.defineVar name v } { d with env := d.env.defineVar name v }
  markUsed {n l : Nat} {c d : Checker} (h : R n l c d) (name : String) :
    R n l { c with env := c.env.markUsed name } { d with env := d.env.markUsed name }
  push {n l : Nat} {c d : Checker} (h : R n l c d) :
    R (n + 1) l { c with env := c.env.push } { d with env := d.env.push }
  pop {n l : Nat} {c d : Checker} (h : R (n + 1) l c d) :
    R n l { c with env := c.env.pop } { d with env := d.env.pop }
  enter {n l : Nat} {c d : Checker} (h : R n l c d) :
    R n (l + 1) { c with loopDepth := c.loopDepth + 1 } { d with loopDepth := d.loopDepth + 1 }
  leave {n l : Nat} {c d : Checker} (h : R n (l + 1) c d) :
    R n l { c with loopDepth := c.loopDepth - 1 } { d with loopDepth := d.loopDepth - 1 }

end Checker

namespace CheckM

variable {α β : Type} {R : Nat → Nat → Checker → Checker → Prop}

/-- From related states, two actions give the same value and go to related states. -/
def Paired (R : Nat → Nat → Checker → Checker → Prop) (p q : CheckM α) : Prop :=
  ∀ ⦃n l : Nat⦄ ⦃c d : Checker⦄, R n l c d → (p c).1 = (q d).1 ∧ R n l (p c).2 (q d).2

/-- From related states, an action gives the same value and goes to related states. -/
def Steady (R : Nat → Nat → Checker → Checker → Prop) (p : CheckM α) : Prop := Paired R p p

namespace Paired

theorem pure (a : α) : Paired R (Pure.pure a) (Pure.pure a) := fun _ _ _ _ h => ⟨rfl, h⟩

theorem bind {p q : CheckM α} {f g : α → CheckM β} (hp : Paired R p q)
    (hf : ∀ a, Paired R (f a) (g a)) : Paired R (p >>= f) (q >>= g) := by
  intro n l c d h
  obtain ⟨hvalue, hstate⟩ := hp h
  show (f (p c).1 (p c).2).1 = (g (q d).1 (q d).2).1 ∧
    R n l (f (p c).1 (p c).2).2 (g (q d).1 (q d).2).2
  rw [hvalue]
  exact hf _ hstate

/-- What follows a look at the state may use anything that related states share. -/
theorem bind_get {f g : Checker → CheckM β}
    (hf : ∀ {n l : Nat} {c d : Checker}, R n l c d → Paired R (f c) (g d)) :
    Paired R (get >>= f) (get >>= g) := fun _ _ _ _ h => hf h h

theorem modify {f g : Checker → Checker}
    (hf : ∀ {n l : Nat} {c d : Checker}, R n l c d → R n l (f c) (g d)) :
    Paired R (modify f) (modify g) := fun _ _ _ _ h => ⟨rfl, hf h⟩

theorem ite {P : Prop} [Decidable P] {p q p' q' : CheckM α} (ht : Paired R p q)
    (hf : Paired R p' q') : Paired R (if P then p else p') (if P then q else q') := by
  split
  · exact ht
  · exact hf

theorem forM {f : α → CheckM Unit} {g : β → CheckM Unit} (view : α → β)
    (hf : ∀ a, Paired R (f a) (g (view a))) (as : List α) :
    Paired R (as.forM f) ((as.map view).forM g) := by
  induction as with
  | nil => exact .pure _
  | cons a as ih => exact (hf a).bind fun _ => ih

end Paired

theorem Steady.forM {f : α → CheckM Unit} (hf : ∀ a, Steady R (f a)) (as : List α) :
    Steady R (as.forM f) := by
  have h := Paired.forM id hf as
  rwa [List.map_id] at h

section Recording

variable (hR : Checker.Recording R)

include hR

theorem report_steady (p : Problem) (place : Span) : Steady R (report p place) :=
  .modify fun h => hR.addDiagnostic h _

theorem reported_steady (p : Problem) (place : Span) (a : α) :
    Steady R (do report p place; Pure.pure a) :=
  (report_steady hR p place).bind fun _ => .pure a

theorem reportMatch_steady (fault : MatchFault) (place : Span) :
    Steady R (reportMatch fault place) :=
  .modify fun h => hR.finding h _

theorem warn_steady (concern : Concern) (place? : Option Span) : Steady R (warn concern place?) :=
  .modify fun h => hR.addWarning h _

theorem warnAlways_steady (concern : Concern) (place? : Option Span) :
    Steady R (warnAlways concern place?) :=
  .modify fun h => hR.warning h _

/-- Warnings about unused names are the same where the innermost scopes are. -/
theorem warnUnused_steady
    (hscope : ∀ {n l : Nat} {c d : Checker}, R n l c d → c.env.scope = d.env.scope)
    (fnName : String) : Steady R (warnUnused fnName) := by
  rw [warnUnused_eq]
  refine .bind_get fun h => ?_
  rw [hscope h]
  exact Steady.forM (fun row => .ite (warn_steady hR _ _) (warn_steady hR _ _)) _

end Recording

mutual

theorem readType_steady (hR : Checker.Recording R) : ∀ t : TypeExpr, Steady R (readType t)
  | .mk name params span? => by
    refine .ite (reported_steady hR ..) ?_
    split
    · exact .ite (.pure _) (reported_steady hR ..)
    · split
      · exact reported_steady hR ..
      · refine .ite ?_ (reported_steady hR ..)
        exact (readTypes_steady hR params).bind fun ts => .pure _

theorem readTypes_steady (hR : Checker.Recording R) : ∀ ts : List TypeExpr, Steady R (readTypes ts)
  | [] => .pure []
  | t :: ts => by
    exact (readType_steady hR t).bind fun first => (readTypes_steady hR ts).bind fun rest => .pure _

end

/-! ### Looking names up -/

def Sees (R : Nat → Nat → Checker → Checker → Prop) (name : String) : Prop :=
  ∀ ⦃n l : Nat⦄ ⦃c d : Checker⦄, R n l c d →
    (c.env.var? name).map Variable.look = (d.env.var? name).map Variable.look

/-- In related states, a name stands for the same function, or for none and for variables that look
the same. -/
def SeesCallee (R : Nat → Nat → Checker → Checker → Prop) (name : String) : Prop :=
  ∀ ⦃n l : Nat⦄ ⦃c d : Checker⦄, R n l c d → c.env.fn? name = d.env.fn? name ∧
    (c.env.fn? name = none →
      (c.env.var? name).map Variable.look = (d.env.var? name).map Variable.look)

theorem Sees.cases {n l : Nat} {d : Checker} (h : Sees R name) (hcd : R n l c d) :
    (c.env.var? name = none ∧ d.env.var? name = none) ∨ ∃ v w, c.env.var? name = some v ∧
      d.env.var? name = some w ∧ v.type = w.type ∧ v.isMutable = w.isMutable := by
  have hlook := h hcd
  cases hc : c.env.var? name <;> cases hd : d.env.var? name <;>
    simp_all [Variable.look]

theorem get_bind (f : Checker → CheckM α) (c : Checker) : (get >>= f) c = f c c := rfl

theorem functionRule_of_some {signature : Signature} (h : c.env.fn? name = some signature)
    (count : Nat) (args : CheckM (List Ty)) (place : Span) :
    functionRule name count args place c = (do
      if signature.params != [.any] && count != signature.params.length then
        report (.wrongArgCount name signature.params.length count) place
      let _ ← args
      return signature.returns : CheckM Ty) c := by
  rw [functionRule, get_bind, h]

theorem functionRule_of_none (h : c.env.fn? name = none) (count : Nat) (args : CheckM (List Ty))
    (place : Span) :
    functionRule name count args place c = (do
      if (c.env.var? name).any (·.type == .any) then
        let _ ← args
        return .any
      else
        report (.undefinedFunction name) place
        return .unknown : CheckM Ty) c := by
  rw [functionRule, get_bind, h]
  rfl

theorem nameRule_of_none (hname : name ≠ "None") (h : c.env.var? name = none) (place : Span) :
    nameRule name place c =
      (do report (.undefinedVariable name) place; return .unknown : CheckM Ty) c := by
  rw [nameRule, if_neg (by simpa using hname), get_bind, h]

theorem assignRule_of_none (h : c.env.var? name = none) (value : CheckM Ty) (place : Span) :
    assignRule name value place c = report (.undefinedVariable name) place c := by
  rw [assignRule, get_bind, h]

theorem assignRule_of_some {v : Variable} (h : c.env.var? name = some v) (value : CheckM Ty)
    (place : Span) :
    assignRule name value place c = (do
      if v.isMutable then
        let type ← value
        unless v.type.compatible type do report (.typeMismatch v.type.text type.text none) place
        modifyEnv (·.markUsed name)
      else report (.immutableAssignment name) place : CheckM Unit) c := by
  rw [assignRule, get_bind, h]

section Lookup

variable {place place' : Span}
  (hreport : ∀ problem, Paired R (report problem place) (report problem place'))

include hreport

theorem nameRule_paired (hsees : Sees R name) (hmark : Steady R (modifyEnv (·.markUsed name))) :
    Paired R (nameRule name place) (nameRule name place') := by
  refine .ite (.pure _) (.bind_get fun h => ?_)
  obtain ⟨hc, hd⟩ | ⟨v, w, hc, hd, htype, -⟩ := hsees.cases h
  · simp only [hc, hd]
    exact (hreport _).bind fun _ => .pure _
  · simp only [hc, hd, htype]
    exact hmark.bind fun _ => .pure _

theorem functionRule_paired (hsees : SeesCallee R name) (count : Nat)
    {args args' : CheckM (List Ty)} (h : Paired R args args') :
    Paired R (functionRule name count args place) (functionRule name count args' place') := by
  have hargs : ∀ type : Ty, Paired R (do let _ ← args; Pure.pure type)
    (do let _ ← args'; Pure.pure type) := fun type => h.bind fun _ => .pure type
  intro n l c d hcd
  obtain ⟨hfn, hvar⟩ := hsees hcd
  -- Both states are looked at twice, so the cases are those of the first state.
  cases hc : c.env.fn? name with
  | some signature =>
    rw [functionRule_of_some hc, functionRule_of_some (hfn ▸ hc)]
    exact Paired.ite ((hreport _).bind fun _ => hargs _) (hargs _) hcd
  | none =>
    have hany := congrArg (Option.any (·.1 == .any)) (hvar hc)
    rw [Option.any_map, Option.any_map] at hany
    rw [functionRule_of_none hc, functionRule_of_none (hfn ▸ hc)]
    exact hany ▸ Paired.ite (hargs _) ((hreport _).bind fun _ => .pure _) hcd

theorem assignRule_paired (hsees : Sees R name) (hmark : Steady R (modifyEnv (·.markUsed name)))
    {value value' : CheckM Ty} (h : Paired R value value') :
    Paired R (assignRule name value place) (assignRule name value' place') := by
  refine .bind_get fun hcd => ?_
  obtain ⟨hc, hd⟩ | ⟨v, w, hc, hd, htype, hmutable⟩ := hsees.cases hcd
  · simp only [hc, hd]
    exact hreport _
  · simp only [hc, hd, htype, hmutable]
    exact .ite (h.bind fun type => .ite hmark ((hreport _).bind fun _ => hmark)) (hreport _)

end Lookup

section Congruence

variable (hR : Checker.Congruence R)

include hR

theorem sees (name : String) : Sees R name :=
  fun _ _ _ _ h => Variable.map_look (f := Variable.settled) (fun _ => rfl) (hR.var? h name)

theorem defineVar_steady (name : String) (v : Variable) : Steady R (defineVar name v) :=
  .modify fun h => hR.defineVar h name v

theorem markUsed_steady (name : String) : Steady R (modifyEnv (·.markUsed name)) :=
  .modify fun h => hR.markUsed h name

theorem inScope_steady {p : CheckM α} (hp : Steady R p) : Steady R (inScope p) := by
  intro n l c d h
  obtain ⟨hvalue, hstate⟩ := hp (hR.push h)
  exact ⟨hvalue, hR.pop hstate⟩

theorem inLoop_steady {p : CheckM α} (hp : Steady R p) : Steady R (inLoop p) := by
  intro n l c d h
  obtain ⟨hvalue, hstate⟩ := hp (hR.enter h)
  exact ⟨hvalue, hR.leave hstate⟩

/-- All that a check can do keeps the relation. -/
theorem Walks.steady {strict inside : Prop} {K : Kinds} {es : List Event} {s : Multiset Site}
    {p q : CheckM α}
    (hscope : inside → ∀ {n l : Nat} {c d : Checker}, R n l c d → c.env.scope = d.env.scope)
    (h : Walks strict inside K es s p q) : Steady R p := by
  induction h with
  | pure a => exact .pure a
  | bind _ _ hp hf => exact hp.bind hf
  | spare _ _ hp | widen _ _ hp => exact hp
  | look _ heq hf =>
    refine .bind_get fun h => ?_
    rw [(heq _ _ (hR.returns? h) (hR.loopDepth h)).1]
    exact hf _
  | report problem place => exact report_steady hR.recording problem place
  | reportMatch fault place => exact reportMatch_steady hR.recording fault place
  | warn | warnSite => exact warn_steady hR.recording _ _
  | warnAlways => exact warnAlways_steady hR.recording _ _
  | name _ _ place =>
    exact nameRule_paired (report_steady hR.recording · place) (sees hR _) (markUsed_steady hR _)
  | function _ _ name count place _ _ _ hargs =>
    exact functionRule_paired (report_steady hR.recording · place)
      (fun _ _ _ _ h => ⟨hR.fn? h name, fun _ => sees hR name h⟩) count hargs
  | assign _ _ name place _ _ _ hvalue =>
    exact assignRule_paired (report_steady hR.recording · place) (sees hR name)
      (markUsed_steady hR name) hvalue
  | declare name => exact defineVar_steady hR name _
  | marked _ _ hp => exact hp.bind fun _ => markUsed_steady hR _
  | scope _ hp => exact inScope_steady hR hp
  | loop _ hp => exact inLoop_steady hR hp
  | warnUnused hinside fnName => exact warnUnused_steady hR.recording (hscope hinside) fnName

end Congruence

end CheckM

open CheckM

variable {R : Nat → Nat → Checker → Checker → Prop}

theorem checkStmts_steady (hR : Checker.Congruence R) (ss : List Stmt) :
    Steady R (checkStmts ss) :=
  (@checkStmts_walks False False ss nofun).steady hR nofun

theorem defineParam_steady (hR : Checker.Congruence R) (p : Param) : Steady R (defineParam p) :=
  (@defineParam_walks False False p).steady hR nofun

theorem checkInside_steady (hR : Checker.Congruence R)
    (hscope : ∀ {n l : Nat} {c d : Checker}, R n l c d → c.env.scope = d.env.scope)
    (fn : FnDecl) : Steady R (checkInside fn) :=
  (@checkInside_walks False True trivial fn nofun).steady hR fun _ => hscope

end Owl
