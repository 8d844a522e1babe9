/-
Types that are certain.

What the check cannot judge has the type `Unknown`.  In a program that it accepts, this
can only be the value of a call whose callee is neither a name nor a field, and what is
made of it: where there are no such calls, every type is certain.

* `Ty.isCertain`, `Env.Certain` — types without `Unknown`, and names that have such types;
* `checkExpr_settles`, `checkStmt_settles` — the walk over a tree.  A statement that has no
  value on some path has the type `Void`.
-/
import Owl.Proofs.Returning.Paths
import Owl.Proofs.Visiting.Steps

namespace Owl

open CheckM

variable {name : String} {types : List Ty} {subject t : Ty} {v : Variable} {Q : Ty → Prop}

/-! ### Certain types -/

def Ty.isCertain : Ty → Bool
  | plain name => name != "Unknown"
  | option inner => inner.isCertain
  | list element => element.isCertain
  | result ok err => ok.isCertain && err.isCertain

def IsCertain (t : Ty) : Prop := t.isCertain = true

/-- The variables of a scope and the values of its functions have certain types. -/
structure Scope.Certain (s : Scope) : Prop where
  vars : ∀ row ∈ s.vars, IsCertain row.2.type
  fns : ∀ row ∈ s.fns, IsCertain row.2.returns

def Env.Certain (env : Env) : Prop := ∀ s ∈ env.scopes, s.Certain

namespace Table

variable {α : Type} {t : Table α} {key : String}

theorem mem_put {value : α} {row : String × α} (h : row ∈ t.put key value) :
    row ∈ t ∨ row = (key, value) := by
  induction t with
  | nil => exact .inr (List.mem_singleton.mp h)
  | cons other t ih =>
    obtain ⟨k, b⟩ := other
    rw [put] at h
    split at h
    · next hk =>
      rcases List.mem_cons.mp h with rfl | h
      · exact .inr (by rw [eq_of_beq hk])
      · exact .inl (List.mem_cons_of_mem _ h)
    · rcases List.mem_cons.mp h with rfl | h
      · exact .inl (List.mem_cons_self ..)
      · exact (ih h).imp_left (List.mem_cons_of_mem _)

end Table

theorem forall_mem_of_forall₂ {α β : Type} {R : α → β → Prop} {P : α → Prop} {Q : β → Prop}
    {as : List α} {bs : List β} (h : List.Forall₂ R as bs) (hR : ∀ a b, R a b → P a → Q b)
    (has : ∀ a ∈ as, P a) : ∀ b ∈ bs, Q b := by
  induction h with
  | nil => exact List.forall_mem_nil _
  | cons hab _ ih =>
    rw [List.forall_mem_cons] at has ⊢
    exact ⟨hR _ _ hab has.1, ih has.2⟩

namespace Env.Certain

variable {env : Env}

theorem var (h : env.Certain) (hv : env.var? name = some v) : IsCertain v.type := by
  obtain ⟨s, hs, hget⟩ := List.exists_of_findSome?_eq_some hv
  exact (h s hs).vars _ (Table.mem_of_get? hget)

theorem fn (h : env.Certain) {signature : Signature} (hfn : env.fn? name = some signature) :
    IsCertain signature.returns := by
  obtain ⟨s, hs, hget⟩ := List.exists_of_findSome?_eq_some hfn
  exact (h s hs).fns _ (Table.mem_of_get? hget)

theorem defineVar (h : env.Certain) (name : String) (hv : IsCertain v.type) :
    (env.defineVar name v).Certain := by
  rw [Env.Certain, scopes, List.forall_mem_cons] at h ⊢
  refine ⟨⟨fun row hrow => ?_, h.1.fns⟩, h.2⟩
  rcases Table.mem_put hrow with hrow | rfl
  · exact h.1.vars row hrow
  · exact hv

theorem defineFn (h : env.Certain) (name : String) {signature : Signature}
    (hreturns : IsCertain signature.returns) : (env.defineFn name signature).Certain := by
  rw [Env.Certain, scopes, List.forall_mem_cons] at h ⊢
  refine ⟨⟨h.1.vars, fun row hrow => ?_⟩, h.2⟩
  rcases Table.mem_put hrow with hrow | rfl
  · exact h.1.fns row hrow
  · exact hreturns

theorem push (h : env.Certain) : env.push.Certain :=
  List.forall_mem_cons.mpr ⟨⟨List.forall_mem_nil _, List.forall_mem_nil _⟩, h⟩

theorem pop (h : env.Certain) : env.pop.Certain := by
  rw [Env.pop, pop?]
  cases houter : env.outer with
  | nil => exact h
  | cons s outer =>
    intro t ht
    refine h t (List.mem_cons_of_mem _ ?_)
    rw [houter]
    exact ht

/-- Marks of use change no types. -/
theorem touched {env' : Env} (h : env.Certain) (ht : TouchedScopes env.scopes env'.scopes) :
    env'.Certain := by
  refine forall_mem_of_forall₂ ht (fun s t hst hs => ⟨?_, ?_⟩) h
  · refine forall_mem_of_forall₂ hst.vars (fun row row' hrow hcertain => ?_) hs.vars
    rcases hrow.2 with heq | heq <;> rwa [heq]
  · rw [hst.fns]
    exact hs.fns

end Env.Certain

/-! ### Actions -/

theorem CheckM.Keeps.look {α : Type} {g : Checker → CheckM α} (hg : ∀ c, Keeps (g c)) :
    Keeps (get >>= g) := fun c => hg c c

/-- Where names have certain types and the action finds nothing, names go on having certain types,
and the value has the property. -/
def CheckM.Settles {α : Type} (Q : α → Prop) (p : CheckM α) : Prop :=
  ∀ ⦃c : Checker⦄, c.env.Certain → (p c).2.findings = [] → (p c).2.env.Certain ∧ Q (p c).1

namespace CheckM.Settles

variable {α β : Type} {P Q : α → Prop} {R : β → Prop} {p : CheckM α} {f : α → CheckM β}

theorem pure {a : α} (h : Q a) : Settles Q (Pure.pure a) := fun _ henv _ => ⟨henv, h⟩

theorem bind (hp : Settles P p) (hkeeps : ∀ a, Keeps (f a)) (hf : ∀ a, P a → Settles R (f a)) :
    Settles R (p >>= f) := by
  intro c henv hnil
  obtain ⟨henv', ha⟩ := hp henv ((hkeeps _ _).findings hnil)
  exact hf _ ha henv' hnil

theorem map {g : α → β} (hp : Settles P p) (hg : ∀ a, P a → R (g a)) :
    Settles R (p >>= fun a => Pure.pure (g a)) :=
  hp.bind (fun a => .pure (g a)) fun a ha => .pure (hg a ha)

theorem mono (hp : Settles P p) (h : ∀ a, P a → Q a) : Settles Q p :=
  fun _ henv hnil => (hp henv hnil).imp_right (h _)

theorem ite {C : Prop} [Decidable C] {q : CheckM α} (hp : C → Settles Q p)
    (hq : ¬ C → Settles Q q) : Settles Q (if C then p else q) := by
  split
  · next h => exact hp h
  · next h => exact hq h

theorem look {g : Checker → CheckM α} (hg : ∀ c, Settles Q (g c)) : Settles Q (get >>= g) :=
  fun c henv hnil => hg c henv hnil

/-- What is behind a problem need not be looked at. -/
theorem reported (problem : Problem) (place : Span) {k : CheckM β} (hk : Keeps k) :
    Settles R (do report problem place; k) :=
  fun _ _ hnil => absurd ((hk _).findings hnil) (Checker.findings_addDiagnostic_ne_nil _ _)

theorem report (problem : Problem) (place : Span) (Q : Unit → Prop) :
    Settles Q (report problem place) :=
  fun _ _ hnil => absurd hnil (Checker.findings_addDiagnostic_ne_nil _ _)

theorem reportMatch (fault : MatchFault) (place : Span) {k : CheckM β} (hk : Keeps k) :
    Settles R (do reportMatch fault place; k) :=
  fun _ _ hnil => absurd ((hk _).findings hnil) (List.append_ne_nil_of_right_ne_nil _ (List.cons_ne_nil _ _))

theorem warnAlways (concern : Concern) (place? : Option Span) :
    Settles (fun _ => True) (warnAlways concern place?) := fun _ henv _ => ⟨henv, trivial⟩

theorem warn (concern : Concern) (place? : Option Span) :
    Settles (fun _ => True) (warn concern place?) := by
  intro c henv _
  refine ⟨?_, trivial⟩
  show (c.addWarning _).env.Certain
  rwa [(Checker.adds_addWarning c _).env]

theorem markUsed (name : String) : Settles (fun _ => True) (modifyEnv (·.markUsed name)) := by
  intro c henv _
  refine ⟨henv.touched ?_, trivial⟩
  show TouchedScopes c.env.scopes (c.env.markUsed name).scopes
  rw [Env.scopes_markUsed]
  exact .markIn name _

theorem defineVar (name : String) (hv : IsCertain v.type) :
    Settles (fun _ => True) (defineVar name v) :=
  fun _ henv _ => ⟨henv.defineVar name hv, trivial⟩

theorem inScope (hp : Settles Q p) : Settles Q (inScope p) := by
  intro c henv hnil
  obtain ⟨henv', ha⟩ := hp (c := { c with env := c.env.push }) henv.push hnil
  exact ⟨henv'.pop, ha⟩

theorem inLoop (hp : Settles Q p) : Settles Q (inLoop p) := by
  intro c henv hnil
  exact hp (c := { c with loopDepth := c.loopDepth + 1 }) henv hnil

end CheckM.Settles

/-! ### Written types -/

def AreCertain (count : Nat) (types : List Ty) : Prop :=
  types.length = count ∧ ∀ t ∈ types, IsCertain t

theorem Ty.primitive?_certain (h : Ty.primitive? name = some t) : IsCertain t := by
  rw [primitive?.eq_def] at h
  split at h <;> cases h <;> rfl

/-- A type with parameters is certain if they are, and if there are as many as it takes. -/
theorem Ty.withParams?_certain {arity : Nat} (h : Ty.arity? name = some arity) {ts : List Ty}
    (hcount : ts.length = arity) (hts : ∀ t ∈ ts, IsCertain t) :
    IsCertain ((Ty.withParams? name ts).getD .unknown) := by
  rw [arity?.eq_def] at h
  split at h <;> cases h
  · obtain ⟨t, rfl⟩ := List.length_eq_one_iff.mp hcount
    exact hts t (List.mem_singleton_self t)
  · obtain ⟨t, e, rfl⟩ := List.length_eq_two.mp hcount
    rw [List.forall_mem_cons, List.forall_mem_singleton] at hts
    exact Bool.and_eq_true_iff.mpr hts
  · obtain ⟨t, rfl⟩ := List.length_eq_one_iff.mp hcount
    exact hts t (List.mem_singleton_self t)

mutual

theorem readType_settles : ∀ written : TypeExpr, Settles IsCertain (readType written)
  | .mk name params span? => by
    have hparams := readTypes_settles params
    refine .ite (fun _ => .reported _ _ (.pure _)) fun _ => ?_
    cases hprimitive : Ty.primitive? name with
    | some t =>
      refine .ite (fun _ => .pure (Ty.primitive?_certain hprimitive)) fun _ => ?_
      exact .reported _ _ (.pure _)
    | none =>
      cases harity : Ty.arity? name with
      | none => exact .reported _ _ (.pure _)
      | some arity =>
        refine .ite (fun hcount => hparams.map fun ts hts => ?_) fun _ => .reported _ _ (.pure _)
        exact Ty.withParams?_certain harity (hts.1.trans (eq_of_beq hcount)) hts.2

theorem readTypes_settles : ∀ types : List TypeExpr,
    Settles (AreCertain types.length) (readTypes types)
  | [] => .pure ⟨rfl, List.forall_mem_nil _⟩
  | t :: types => by
    refine (readType_settles t).bind (fun _ => (readTypes_walks types).keeps.map _) fun first hfirst => ?_
    refine (readTypes_settles types).map fun rest hrest => ?_
    exact ⟨congrArg (· + 1) hrest.1, List.forall_mem_cons.mpr ⟨hfirst, hrest.2⟩⟩

end

/-! ### Rules for expressions -/

theorem nameRule_settles (name : String) (place : Span) :
    Settles IsCertain (nameRule name place) := by
  refine .ite (fun _ => .pure rfl) fun _ => ?_
  intro c henv hnil
  rw [get_bind] at hnil ⊢
  cases hv : c.env.var? name with
  | some v =>
    rw [hv] at hnil
    exact ((Settles.markUsed name).map fun _ _ => henv.var hv) henv hnil
  | none =>
    rw [hv] at hnil
    exact Settles.reported _ _ (.pure _) henv hnil

/-- Whether an operator is one of those that there are rules for. -/
def hasRule (op : String) : Bool := isArithmetic op || isEquality op || isOrdering op

theorem binaryRule_settles {op : String} (hop : hasRule op = true) {left right : Ty}
    (place : Span) : Settles IsCertain (binaryRule op left right place) := by
  refine .ite (fun _ => .pure rfl) fun _ => .ite (fun _ => ?_) fun harithmetic => ?_
  · refine .ite (fun _ => .pure rfl) fun _ => .ite (fun _ => .pure ?_) fun _ => ?_
    · split <;> rfl
    · exact .reported _ _ (.pure _)
  · refine .ite (fun _ => ?_) fun hequality => .ite (fun _ => ?_) fun hordering => ?_
    · exact .ite (fun _ => .pure rfl) fun _ => .reported _ _ (.pure _)
    · exact .ite (fun _ => .pure rfl) fun _ => .reported _ _ (.pure _)
    · simp [hasRule, harithmetic, hequality, hordering] at hop

theorem unaryRule_settles (op : String) {operand : Ty} (h : IsCertain operand) (place : Span) :
    Settles IsCertain (unaryRule op operand place) := by
  exact .ite (fun _ => .reported _ _ (.pure _)) fun _ => .pure h

theorem listRule_settles (h : ∀ t ∈ types, IsCertain t) (place : Span) :
    Settles IsCertain (listRule types place) := by
  cases types with
  | nil => exact .pure rfl
  | cons first rest =>
    rw [listRule]
    split
    · exact .reported _ _ (.pure _)
    · exact .pure (h first (List.mem_cons_self ..))

theorem constructed_certain (h : (ValueConstructor.find? name).isSome = true)
    (hnone : name ≠ "None") (ht : IsCertain t) : IsCertain (constructed name t) := by
  obtain ⟨v, hv⟩ := Option.isSome_iff_exists.mp h
  have hname := List.find?_some hv
  have hmem := List.mem_of_find?_eq_some hv
  rw [beq_iff_eq] at hname
  subst hname
  simp only [ValueConstructor.all, List.mem_cons, List.not_mem_nil, or_false] at hmem
  rcases hmem with rfl | rfl | rfl | rfl
  · exact ht
  · exact absurd rfl hnone
  · exact Bool.and_eq_true_iff.mpr ⟨ht, rfl⟩
  · exact Bool.and_eq_true_iff.mpr ⟨rfl, ht⟩

/-- The type at a place, if it is not the one that stands for none. -/
theorem AreCertain.getD {count : Nat} (h : AreCertain count types) {i : Nat}
    (hi : types.getD i .unknown ≠ .unknown) : IsCertain (types.getD i .unknown) := by
  rw [List.getD_eq_getElem?_getD] at hi ⊢
  cases hget : types[i]? with
  | none =>
    rw [hget] at hi
    exact absurd rfl hi
  | some t => exact h.2 t (List.mem_of_getElem? hget)

theorem getRule_settles {count : Nat} (h : AreCertain count types) (listPlace indexPlace : Span) :
    Settles IsCertain (getRule types listPlace indexPlace) := by
  refine .ite (fun _ => ?_) fun _ => .reported _ _ ?_
  · split
    · next element hlist =>
      have hcertain := h.getD (i := 0)
      rw [hlist] at hcertain
      exact .pure (hcertain (by simp [Ty.unknown]))
    · exact .ite (fun _ => .pure rfl) fun _ => .reported _ _ (.pure _)
  · split
    · exact .pure _
    · exact .ite (.pure _) ((report_keeps _ _).map _)

theorem pushRule_settles (h : AreCertain 2 types) (listPlace valuePlace : Span) :
    Settles IsCertain (pushRule types listPlace valuePlace) := by
  rw [pushRule]
  split
  · next element hlist =>
    have hcertain := h.getD (i := 0)
    rw [hlist] at hcertain
    exact .ite (fun _ => .pure (hcertain (by simp [Ty.unknown]))) fun _ => .reported _ _ (.pure _)
  · refine .ite (fun _ => .pure ?_) fun _ => .reported _ _ (.pure _)
    obtain ⟨t, value, rfl⟩ := List.length_eq_two.mp h.1
    exact h.2 value (by simp)

section Calls

variable {name : String} {count : Nat} {args : CheckM (List Ty)}
  (hargs : Settles (AreCertain count) args)

include hargs

theorem constructorRule_settles (hname : (ValueConstructor.find? name).isSome = true)
    (place : Span) : Settles IsCertain (constructorRule name count args place) := by
  refine .ite (fun _ => .reported _ _ (.pure _)) fun hnone => .ite (fun _ => ?_) fun _ => ?_
  · refine hargs.map fun types htypes => ?_
    have hfirst : IsCertain (types.headD .any) := by
      cases types with
      | nil => rfl
      | cons first rest => exact htypes.2 first (List.mem_cons_self ..)
    exact constructed_certain hname (by simpa using hnone) hfirst
  · exact .reported _ _ (.pure _)

theorem functionRule_settles (hkeeps : Keeps args) (place : Span) :
    Settles IsCertain (functionRule name count args place) := by
  intro c henv hnil
  cases hfn : c.env.fn? name with
  | some signature =>
    rw [functionRule_of_some hfn] at hnil ⊢
    have hreturns := henv.fn hfn
    exact Settles.ite (Q := IsCertain) (fun _ => .reported _ _ (hkeeps.map _))
      (fun _ => hargs.map fun _ _ => hreturns) henv hnil
  | none =>
    rw [functionRule_of_none hfn] at hnil ⊢
    have hany : IsCertain .any := rfl
    exact Settles.ite (Q := IsCertain) (fun _ => hargs.map fun _ _ => hany)
      (fun _ => .reported _ _ (.pure _)) henv hnil

theorem callRule_settles (hkeeps : Keeps args) {places : List Span} (hcount : places.length = count)
    (place : Span) : Settles IsCertain (callRule name places args place) := by
  rw [callRule]
  subst hcount
  refine .ite (fun hname => constructorRule_settles hargs hname place) fun _ => ?_
  refine .ite (fun _ => .ite (fun _ => ?_) fun _ => .reported _ _ (.pure _)) fun _ => ?_
  · refine hargs.bind (fun _ => (getRule_walks _ _ _ .dummy .dummy).keeps) fun types htypes => ?_
    exact getRule_settles htypes _ _
  · refine .ite (fun _ => .ite (fun htwo => ?_) fun _ => .reported _ _ (.pure _)) fun _ => ?_
    · refine hargs.bind (fun _ => (pushRule_walks _ _ _ .dummy .dummy).keeps) fun types htypes => ?_
      rw [eq_of_beq htwo] at htypes
      exact pushRule_settles htypes _ _
    · exact functionRule_settles hargs hkeeps place

end Calls

theorem propagateRule_settles {operand : Ty} (h : IsCertain operand) (place : Span) :
    Settles IsCertain (propagateRule operand place) := by
  cases operand with
  | result ok err =>
    -- What the function returns decides about findings only, not about the type.
    have hok : IsCertain ok := (Bool.and_eq_true_iff.mp h).1
    refine .look fun c => ?_
    split
    · exact .ite (fun _ => .reported _ _ (.pure _)) fun _ => .pure hok
    · exact .reported _ _ (.pure _)
  | _ => exact .reported _ _ (.pure _)

def ArmsCertain (arms : List (String × Ty)) : Prop := ∀ arm ∈ arms, IsCertain arm.2

theorem patternBinding?_certain (h : IsCertain subject) {pattern : Pattern}
    {binding : String × Ty} (hbinding : patternBinding? subject pattern = some binding) :
    IsCertain binding.2 := by
  rw [patternBinding?.eq_def] at hbinding
  split at hbinding <;> cases hbinding
  · exact h
  · exact (Bool.and_eq_true_iff.mp h).1
  · exact (Bool.and_eq_true_iff.mp h).2

theorem armRule_settles (h : IsCertain subject) (pattern : Pattern) {body : CheckM Ty}
    (hkeeps : Keeps body) (hbody : Settles IsCertain body) :
    Settles (fun arm? => ArmsCertain arm?.toList) (armRule subject pattern body) := by
  refine .ite (fun _ => .inScope ?_) fun _ => .reported _ _ (.pure _)
  cases hbinding : patternBinding? subject pattern with
  | none =>
    exact hbody.map fun t ht => by simpa [ArmsCertain] using ht
  | some binding =>
    refine (Settles.defineVar _ (patternBinding?_certain h hbinding)).bind (fun _ => hkeeps.map _)
      fun _ _ => ?_
    exact hbody.map fun t ht => by simpa [ArmsCertain] using ht

theorem armsRule_settles {arms : List (String × Ty)} (harms : ArmsCertain arms)
    (hpatterns : (expectedPatterns subject).isEmpty = false) (place : Span) :
    Settles IsCertain (armsRule subject arms place) := by
  refine .ite (fun hmissing => ?_) fun _ => .reported _ _ ?_
  · cases arms with
    | nil =>
      -- Without arms both patterns are missing.
      have hall : expectedPatterns subject = [] := by simpa using hmissing
      rw [hall] at hpatterns
      cases hpatterns
    | cons arm arms =>
      simp only [List.map_cons]
      split
      · exact .reportMatch _ _ (.pure _)
      · exact .pure (harms arm (List.mem_cons_self ..))
  · split
    · exact .pure _
    · split
      · exact .map (.of_adds (Checker.adds_finding · _)) _
      · exact .pure _

theorem matchRule_settles {arms : CheckM (List (String × Ty))} (harms : Settles ArmsCertain arms)
    (place : Span) : Settles IsCertain (matchRule subject arms place) := by
  refine .ite (fun _ => .reportMatch _ _ (.pure _)) fun hpatterns => ?_
  refine harms.bind (fun _ => (armsRule_walks ..).keeps) fun found hfound => ?_
  exact armsRule_settles hfound (by simpa using hpatterns) place

/-! ### Rules for statements -/

/-- Only `Void` and `Any` let a place without a value stand. -/
theorem Ty.compatible_void (h : IsCertain t) (hcompatible : t.compatible .void = true) :
    t = .any ∨ t = .void := by
  cases t with
  | plain name =>
    have hname : name ≠ "Unknown" := by simpa [IsCertain, isCertain] using h
    simpa [compatible, agree, any, void, unknown, hname] using hcompatible
  | _ => simp [compatible, agree, any, void, unknown] at hcompatible

def TypesPaths (yields : Bool) (t : Ty) : Prop := IsCertain t ∧ (yields = false → t = .void)

theorem TypesPaths.void (yields : Bool) : TypesPaths yields .void := ⟨rfl, fun _ => rfl⟩

theorem conditionRule_settles (condition : Expr) {type : CheckM Ty} (h : Settles Q type) :
    Settles (fun _ => True) (conditionRule condition type) := by
  rw [conditionRule]
  have hreport (t : Ty) : Keeps (do
      unless [Ty.bool, .any, .unknown].contains t do
        report (.conditionNotBool t.text) condition.place) :=
    .ite (.pure _) (report_keeps _ _)
  have hjudge (t : Ty) : Settles (fun _ => True) (do
      unless [Ty.bool, .any, .unknown].contains t do
        report (.conditionNotBool t.text) condition.place) :=
    .ite (fun _ => .pure trivial) fun _ => .report _ _ _
  cases condition with
  | bool value span? =>
    have hwarn (place : Span) : Keeps (warnAlways (.constantCondition value) (some place)) :=
      .of_adds (Checker.adds_warning · _)
    refine h.bind (fun t => (hwarn _).bind fun _ => hreport t) fun t _ => ?_
    exact (Settles.warnAlways ..).bind (fun _ => hreport t) fun _ _ => hjudge t
  | _ => exact h.bind (fun t => hreport t) fun t _ => hjudge t

theorem branchRule_settles {last : CheckM Ty} {others : CheckM Unit} (hlast : Settles Q last)
    (hothers : Settles (fun _ => True) others) (hkeeps : Keeps others) :
    Settles Q (branchRule last others) :=
  hlast.bind (fun _ => hkeeps.map _) fun _ ht => hothers.map fun _ _ => ht

/-- A choice has a value only where both of its branches have one. -/
theorem choiceRule_settles {yields yields' : Bool} {thenType elseType : Ty}
    (hthen : TypesPaths yields thenType) (helse : TypesPaths yields' elseType) (place : Span) :
    Settles (TypesPaths (yields && yields')) (choiceRule thenType elseType place) := by
  refine .ite (fun hcompatible => .pure ⟨?_, fun hyields => ?_⟩) fun _ => .reported _ _ (.pure _)
  · split
    · exact helse.1
    · exact hthen.1
  · rcases Bool.and_eq_false_iff.mp hyields with hyields | hyields
    · rw [hthen.2 hyields]
      rfl
    · -- The other branch has to be compatible with `Void`, so it is `Void` or `Any`.
      have helse := helse.2 hyields
      rw [helse] at hcompatible ⊢
      rcases Ty.compatible_void hthen.1 hcompatible with rfl | rfl <;> rfl

theorem letRule_settles (name : String) {value : Ty} (h : IsCertain value)
    (type? : Option TypeExpr) (isMutable : Bool) (span? : Option Span) :
    Settles (fun _ => True) (letRule name value type? isMutable span?) := by
  cases type? with
  | none => exact .defineVar name h
  | some written =>
    have hdefine (expected : Ty) :
        Keeps (defineVar name { type := expected, span?, isMutable }) := fun _ => .refl _
    refine (readType_settles written).bind (fun expected => ?_) fun expected hexpected => ?_
    · exact .ite (hdefine expected) ((report_keeps _ _).bind fun _ => hdefine expected)
    · exact .ite (fun _ => .defineVar name hexpected) fun _ => .reported _ _ (hdefine expected)

theorem assignRule_settles (name : String) {value : CheckM Ty} (h : Settles Q value)
    (place : Span) : Settles (fun _ => True) (assignRule name value place) := by
  refine .look fun c => ?_
  have hmark : Keeps (modifyEnv (·.markUsed name)) := fun _ => .refl _
  cases c.env.var? name with
  | none => exact .report _ _ _
  | some v =>
    refine .ite (fun _ => ?_) fun _ => .report _ _ _
    refine h.bind (fun _ => ?_) fun _ _ => .ite (fun _ => .markUsed name) fun _ => ?_
    · exact .ite hmark ((report_keeps _ _).bind fun _ => hmark)
    · exact .reported _ _ hmark

theorem returnRule_settles (type : Ty) (place : Span) :
    Settles (fun _ => True) (returnRule type place) := by
  refine .look fun c => ?_
  split
  · exact .ite (fun _ => .pure trivial) fun _ => .report _ _ _
  · exact .pure trivial

theorem elementRule_settles {collection : Ty} (h : IsCertain collection) (place : Span) :
    Settles IsCertain (elementRule collection place) := by
  rw [elementRule.eq_def]
  split
  · exact .pure h
  · exact .ite (fun _ => .pure rfl) fun _ => .reported _ _ (.pure _)

theorem forRule_settles (item : String) {element : Ty} (h : IsCertain element)
    {body : CheckM Unit} (hbody : Settles (fun _ => True) body) (hkeeps : Keeps body)
    (span? : Option Span) : Settles (fun _ => True) (forRule item element body span?) := by
  have hloop : Keeps (do inLoop body; modifyEnv (·.markUsed item)) :=
    hkeeps.inLoop.bind fun _ _ => .refl _
  refine .inScope ((Settles.defineVar item h).bind (fun _ => hloop) fun _ _ => ?_)
  exact hbody.inLoop.bind (fun _ _ => .refl _) fun _ _ => .markUsed item

theorem loopOnlyRule_settles (problem : Problem) (place : Span) :
    Settles (fun _ => True) (loopOnlyRule problem place) :=
  .look fun _ => .ite (fun _ => .report _ _ _) fun _ => .pure trivial

theorem ignoredRule_settles (type : Ty) (place : Span) :
    Settles (fun _ => True) (ignoredRule type place) := by
  rw [ignoredRule.eq_def]
  split
  · exact .warnAlways ..
  · exact .warnAlways ..
  · exact .pure trivial

/-! ### The walk -/

mutual

/-- Whether there are rules for an expression and for all that stands in it. -/
@[simp] def Expr.isRuled : Expr → Bool
  | .int .. | .float .. | .string .. | .bool .. | .name .. => true
  | .binary left op right _ => hasRule op && (left.isRuled && right.isRuled)
  | .unary _ operand _ | .field operand _ _ | .propagate operand _ => operand.isRuled
  | .call callee args _ => !callee.isComputed && (callee.isRuled && exprsRuled args)
  | .list elements _ => exprsRuled elements
  | .matching subject arms _ => subject.isRuled && armsRuled arms
  | .stmt _ | .unknown => false

@[simp] def exprsRuled : List Expr → Bool
  | [] => true
  | e :: es => e.isRuled && exprsRuled es

@[simp] def armsRuled : List Arm → Bool
  | [] => true
  | ⟨_, body, _⟩ :: arms => body.isRuled && armsRuled arms

end

mutual

/-- Whether there are rules for the expressions of a statement. -/
@[simp] def Stmt.isRuled : Stmt → Bool
  | .letVar _ value _ _ _ | .assign _ value _ | .expr value _ | .ret (some value) _ => value.isRuled
  | .whileLoop condition body _ | .forLoop _ condition body _ =>
    condition.isRuled && stmtsRuled body
  | .loop body _ => stmtsRuled body
  | .ifElse condition thenBody none _ => condition.isRuled && stmtsRuled thenBody
  | .ifElse condition thenBody (some elseBody) _ =>
    condition.isRuled && (stmtsRuled thenBody && stmtsRuled elseBody)
  | .ret none _ | .breakLoop _ | .continueLoop _ | .fn _ | .bare _ | .unknown => true

@[simp] def stmtsRuled : List Stmt → Bool
  | [] => true
  | s :: rest => s.isRuled && stmtsRuled rest

end

mutual

theorem checkExpr_settles : ∀ e : Expr, e.isRuled = true → Settles IsCertain (checkExpr e)
  | .int .., _ | .float .., _ | .string .., _ | .bool .., _ => by
    exact .pure rfl
  | .name name span?, _ => by
    exact nameRule_settles ..
  | .binary left op right span?, h => by
    simp only [Expr.isRuled, Bool.and_eq_true] at h
    have hleft := checkExpr_settles left h.2.1
    have hright := checkExpr_settles right h.2.2
    refine hleft.bind (fun _ => (checkExpr_keeps right).bind fun _ => ?_) fun _ _ => ?_
    · exact (binaryRule_walks ..).keeps
    · exact hright.bind (fun _ => (binaryRule_walks ..).keeps) fun _ _ => binaryRule_settles h.1 _
  | .unary op operand span?, h => by
    have hoperand := checkExpr_settles operand (by simpa using h)
    exact hoperand.bind (fun _ => (unaryRule_walks ..).keeps) fun t ht => unaryRule_settles op ht _
  | .call callee args span?, h => by
    simp only [Expr.isRuled, Bool.and_eq_true] at h
    have hargs := checkExprs_settles args h.2.2
    cases callee with
    | name name nameSpan? =>
      exact callRule_settles hargs (checkExprs_keeps args) (List.length_map ..) _
    | field object field fieldSpan? =>
      have hobject := checkExpr_settles object (by simpa using h.2.1)
      refine hobject.bind (fun _ => (checkExprs_keeps args).map _) fun _ _ => ?_
      exact hargs.map fun _ _ => rfl
    | _ => simp [Expr.isComputed] at h
  | .field object _ _, h => by
    have hobject := checkExpr_settles object (by simpa using h)
    exact hobject.map fun _ _ => rfl
  | .propagate operand span?, h => by
    have hoperand := checkExpr_settles operand (by simpa using h)
    exact hoperand.bind (fun _ => (propagateRule_walks ..).keeps) fun t ht =>
      propagateRule_settles ht _
  | .list elements span?, h => by
    have helements := checkExprs_settles elements (by simpa using h)
    exact helements.bind (fun _ => (listRule_walks ..).keeps) fun ts hts => listRule_settles hts.2 _
  | .matching subject arms span?, h => by
    simp only [Expr.isRuled, Bool.and_eq_true] at h
    have hsubject := checkExpr_settles subject h.1
    refine hsubject.bind (fun t => ?_) fun t ht => ?_
    · exact (matchRule_walks t (checkArms_walks t arms False.elim) False.elim _).keeps
    · exact matchRule_settles (checkArms_settles ht arms h.2) _
  | .stmt _, h | .unknown, h => by
    simp at h

theorem checkExprs_settles : ∀ es : List Expr, exprsRuled es = true →
    Settles (AreCertain es.length) (checkExprs es)
  | [], _ => by
    exact .pure ⟨rfl, List.forall_mem_nil _⟩
  | e :: es, h => by
    simp only [exprsRuled, Bool.and_eq_true] at h
    have hfirst := checkExpr_settles e h.1
    refine hfirst.bind (fun _ => (checkExprs_keeps es).map _) fun first hfirst => ?_
    refine (checkExprs_settles es h.2).map fun rest hrest => ?_
    exact ⟨congrArg (· + 1) hrest.1, List.forall_mem_cons.mpr ⟨hfirst, hrest.2⟩⟩

theorem checkArms_settles {subject : Ty} (hsubject : IsCertain subject) : ∀ arms : List Arm,
    armsRuled arms = true → Settles ArmsCertain (checkArms subject arms)
  | [], _ => by
    exact .pure (List.forall_mem_nil _)
  | ⟨pattern, body, _⟩ :: arms, h => by
    simp only [armsRuled, Bool.and_eq_true] at h
    have hbody := armRule_settles hsubject pattern (checkExpr_keeps body)
      (checkExpr_settles body h.1)
    refine hbody.bind (fun _ => (checkArms_keeps subject arms).map _) fun first? hfirst => ?_
    refine (checkArms_settles hsubject arms h.2).map fun rest hrest => ?_
    exact List.forall_mem_append.mpr ⟨hfirst, hrest⟩

theorem checkStmt_settles (use : Use) : ∀ s : Stmt, s.isRuled = true →
    Settles (TypesPaths s.yields) (checkStmt use s)
  | .letVar name value type? isMutable span?, h => by
    have hvalue := checkExpr_settles value (by simpa using h)
    refine hvalue.bind (fun _ => (letRule_walks ..).keeps.map _) fun t ht => ?_
    exact (letRule_settles name ht ..).map fun _ _ => .void _
  | .assign name value span?, h => by
    have hvalue := checkExpr_settles value (by simpa using h)
    exact (assignRule_settles name hvalue _).map fun _ _ => .void _
  | .expr e _, h => by
    exact (checkExpr_settles e (by simpa using h)).mono fun t ht => ⟨ht, nofun⟩
  | .ret none _, _ | .fn _, _ | .bare _, _ | .unknown, _ => by
    exact .pure (.void _)
  | .ret (some e) span?, h => by
    have hvalue := checkExpr_settles e (by simpa using h)
    refine hvalue.bind (fun _ => (returnRule_walks ..).keeps.map _) fun t _ => ?_
    exact (returnRule_settles ..).map fun _ _ => .void _
  | .whileLoop condition body _, h => by
    simp only [Stmt.isRuled, Bool.and_eq_true] at h
    have hcondition := conditionRule_settles condition (checkExpr_settles condition h.1)
    refine hcondition.bind (fun _ => (checkStmts_keeps body).inLoop.map _) fun _ _ => ?_
    exact (checkStmts_settles body h.2).inLoop.map fun _ _ => .void _
  | .forLoop item collection body span?, h => by
    simp only [Stmt.isRuled, Bool.and_eq_true] at h
    have hcollection := checkExpr_settles collection h.1
    have hbody := checkStmts_settles body h.2
    have hloop (element : Ty) : Keeps (forRule item element (checkStmts body) span?) :=
      (forRule_walks item element (checkStmts_walks body False.elim) span?).keeps
    refine hcollection.bind (fun _ => ?_) fun t ht => ?_
    · exact (elementRule_walks _ _ .dummy).keeps.bind fun element => (hloop element).map _
    refine (elementRule_settles ht _).bind (fun element => (hloop element).map _) fun _ hitem => ?_
    exact (forRule_settles item hitem hbody (checkStmts_keeps body) span?).map fun _ _ => .void _
  | .loop body span?, h => by
    have hbody := checkStmts_settles body (by simpa using h)
    simp only [checkStmt]
    have hwarn : Keeps (warn .loopWithoutExit (some (span?.getD .dummy))) :=
      .of_adds (Checker.adds_addWarning · _)
    refine hbody.inLoop.bind (fun _ => .ite (.pure _) (hwarn.map _)) fun _ _ => ?_
    exact .ite (fun _ => .pure (.void _)) fun _ => (Settles.warn ..).map fun _ _ => .void _
  | .breakLoop span?, _ | .continueLoop span?, _ => by
    exact (loopOnlyRule_settles ..).map fun _ _ => .void _
  | .ifElse condition thenBody none span?, h => by
    simp only [Stmt.isRuled, Bool.and_eq_true] at h
    have hcondition := conditionRule_settles condition (checkExpr_settles condition h.1)
    cases use with
    | effect =>
      refine hcondition.bind (fun _ => (checkStmts_keeps thenBody).map _) fun _ _ => ?_
      exact (checkStmts_settles thenBody h.2).map fun _ _ => .void _
    | value =>
      have hthen := branchRule_settles (checkLast_settles thenBody h.2)
        (checkInit_settles thenBody h.2) (checkInit_keeps thenBody)
      refine hcondition.bind (fun _ => (branch_keeps thenBody).map _) fun _ _ => ?_
      exact hthen.map fun _ _ => .void _
  | .ifElse condition thenBody (some elseBody) span?, h => by
    simp only [Stmt.isRuled, Bool.and_eq_true] at h
    have hcondition := conditionRule_settles condition (checkExpr_settles condition h.1)
    have helse := (checkStmts_keeps elseBody).map fun _ => Ty.void
    cases use with
    | effect =>
      simp only [checkStmt]
      have hkeeps := (checkStmts_keeps thenBody).bind fun _ => helse
      refine hcondition.bind (fun _ => hkeeps) fun _ _ => ?_
      refine (checkStmts_settles thenBody h.2.1).bind (fun _ => helse) fun _ _ => ?_
      exact (checkStmts_settles elseBody h.2.2).map fun _ _ => .void _
    | value =>
      have hthen := branchRule_settles (checkLast_settles thenBody h.2.1)
        (checkInit_settles thenBody h.2.1) (checkInit_keeps thenBody)
      have helse := branchRule_settles (checkLast_settles elseBody h.2.2)
        (checkInit_settles elseBody h.2.2) (checkInit_keeps elseBody)
      cases elseBody with
      | nil =>
        -- An `else` without statements has no value, and neither has the choice.
        refine hcondition.bind (fun _ => (branch_keeps thenBody).map _) fun _ _ => ?_
        exact hthen.map fun _ _ => .void _
      | cons s rest =>
        have hchoice (t : Ty) : Keeps (do
            let elseType ← branchRule (checkLast (s :: rest)) (checkInit (s :: rest))
            choiceRule t elseType (span?.getD .dummy)) :=
          (branch_keeps _).bind fun _ => (choiceRule_walks ..).keeps
        refine hcondition.bind (fun _ => (branch_keeps thenBody).bind hchoice) fun _ _ => ?_
        refine hthen.bind hchoice fun t ht => ?_
        refine helse.bind (fun _ => (choiceRule_walks ..).keeps) fun t' ht' => ?_
        exact choiceRule_settles ht ht' _

theorem checkStmts_settles : ∀ ss : List Stmt, stmtsRuled ss = true →
    Settles (fun _ => True) (checkStmts ss)
  | [], _ => by
    exact .pure trivial
  | s :: rest, h => by
    simp only [stmtsRuled, Bool.and_eq_true] at h
    have hfirst := checkStmt_settles .effect s h.1
    exact hfirst.bind (fun _ => checkStmts_keeps rest) fun _ _ => checkStmts_settles rest h.2

theorem checkLast_settles : ∀ ss : List Stmt, stmtsRuled ss = true →
    Settles (TypesPaths (lastYields ss)) (checkLast ss)
  | [], _ => by
    exact .pure (.void _)
  | [s], h => by
    exact checkStmt_settles .value s (by simpa using h)
  | _ :: s :: rest, h => by
    simp only [stmtsRuled, Bool.and_eq_true] at h
    exact checkLast_settles (s :: rest) (by simpa using h.2)

theorem checkInit_settles : ∀ ss : List Stmt, stmtsRuled ss = true →
    Settles (fun _ => True) (checkInit ss)
  | [], _ | [_], _ => by
    exact .pure trivial
  | s :: s' :: rest, h => by
    simp only [stmtsRuled, Bool.and_eq_true] at h
    have hfirst := checkStmt_settles .effect s h.1
    have hrest := checkInit_settles (s' :: rest) (by simpa using h.2)
    simp only [checkInit] at hrest ⊢
    exact hfirst.bind (fun _ => checkInit_keeps (s' :: rest)) fun _ _ => hrest

end

/-! ### Bodies -/

theorem checkBodyStmt_settles (isLast : Bool) (s : Stmt) (h : s.isRuled = true) :
    Settles (fun r => TypesPaths s.yields r.1) (checkBodyStmt isLast s) := by
  have hstmt := checkStmt_settles .value s h
  cases s with
  | expr e span? =>
    refine hstmt.bind (fun t => .look fun c => ?_) fun t ht => .look fun c => ?_
    · exact .ite (.pure _) ((ignoredRule_walks _ _ .dummy).keeps.map _)
    · exact .ite (fun _ => .pure ht) fun _ => (ignoredRule_settles ..).map fun _ _ => ht
  | _ => exact hstmt.map fun t ht => ht

theorem checkBody_settles (returned : Bool) (ss : List Stmt) (h : stmtsRuled ss = true) :
    Settles (fun r => TypesPaths (lastYields ss) r.1) (checkBody returned ss) := by
  induction ss generalizing returned with
  | nil => exact .pure (.void _)
  | cons s rest ih =>
    simp only [stmtsRuled, Bool.and_eq_true] at h
    have hkeeps (r : Ty × Bool) : Keeps (if rest.isEmpty then pure (r.1, returned || r.2)
        else checkBody (returned || r.2) rest) := .ite (.pure _) (checkBody_keeps _ rest)
    have hboth : Settles (fun r => TypesPaths (lastYields (s :: rest)) r.1) (do
        let r ← checkBodyStmt rest.isEmpty s
        if rest.isEmpty then return (r.1, returned || r.2)
        else checkBody (returned || r.2) rest) := by
      refine (checkBodyStmt_settles _ s h.1).bind hkeeps fun r hr => ?_
      cases rest with
      | nil => exact .pure hr
      | cons s' rest => exact ih _ h.2
    refine .ite (fun _ => (Settles.warn ..).bind (fun _ => ?_) fun _ _ => hboth) fun _ => hboth
    exact (Walks.keeps (checkBodyStmt_walks _ s False.elim)).bind hkeeps

end Owl
