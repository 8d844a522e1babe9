/-
What a check does.

A check declares variables, looks names up, and opens and closes scopes; all else
that it does changes no scope, and depends on nothing but the type that is to be
returned and the number of loops.  Where it finds something wrong it may leave out
what is left of a construct.

Some reports are recorded without a look at those that are there: faults of
matches, constant conditions, values that are thrown away, and code that cannot
be reached or does not end.  Each of them belongs to a node of the tree, its
site.  A walk comes to every node at most once, so what it records without a look
is at most the sites of the tree.

* `Walks strict inside K es s p q` — the action `p` does what the events `es` say, in
  order, and uses up at most the sites `s`; `q` is the same action at other places.
  If `strict` holds, `p` leaves out only what declares nothing, and only if `inside`
  holds it looks at a scope as a whole.  Its problems without a site are of the
  kinds `K`;
* `checkExpr_walks`, `checkStmt_walks`, `checkBody_walks` — the check goes through
  the events of a tree as it is checked, uses up the sites of the tree, and does the
  same for the tree without places.

What follows from this for all checks is shown by induction on `Walks`, with one
case for each thing that a check can do.
-/
import Mathlib.Algebra.Order.Group.Multiset
import Owl.Proofs.Layout.Trees
import Owl.Proofs.Scoping.Events

namespace Owl

/-! ### Sites -/

/-- The kinds of report that may be recorded more than once. -/
inductive SiteKind
  | matching
  | condition
  | ignored
  | unreachable
  | endless
deriving DecidableEq, Repr

/-- A place where such a report can be made, if it has a place. -/
structure Site where
  kind : SiteKind
  pos? : Option Position
deriving DecidableEq, Repr

/-- The kind of report that a code stands for, if it may be recorded more than once. -/
def siteKind? (code : String) : Option SiteKind :=
  if code = "E0000" then some .matching
  else if code = "W0306" then some .condition
  else if code = "W0304" ∨ code = "W0305" then some .ignored
  else if code = "W0201" then some .unreachable
  else if code = "W0204" then some .endless
  else none

def Expr.conditionSites (e : Expr) : Multiset Site :=
  match e with
  | .bool .. => {⟨.condition, some e.place.start⟩}
  | _ => 0

mutual

/-- The sites of an expression: its matches, and those of its parts. -/
def Expr.sites : Expr → Multiset Site
  | .binary left _ right _ => left.sites + right.sites
  | .unary _ operand _ => operand.sites
  | .call callee args _ => callee.sites + exprsSites args
  | .field object _ _ => object.sites
  | .propagate operand _ => operand.sites
  | .list elements _ => exprsSites elements
  | .matching subject arms span? =>
    {⟨.matching, some (span?.getD .dummy).start⟩} + (subject.sites + armsSites arms)
  | .stmt s => s.sites
  | .int .. | .float .. | .string .. | .bool .. | .name .. | .unknown => 0

def exprsSites : List Expr → Multiset Site
  | [] => 0
  | e :: es => e.sites + exprsSites es

def armsSites : List Arm → Multiset Site
  | [] => 0
  | ⟨_, body, _⟩ :: arms => body.sites + armsSites arms

/-- The sites of a statement: its constant condition, a loop that does not end, and those of its
parts. -/
def Stmt.sites : Stmt → Multiset Site
  | .letVar _ value _ _ _ => value.sites
  | .assign _ value _ => value.sites
  | .expr e _ => e.sites
  | .ret none _ => 0
  | .ret (some value) _ => value.sites
  | .whileLoop condition body _ => condition.conditionSites + condition.sites + stmtsSites body
  | .forLoop _ collection body _ => collection.sites + stmtsSites body
  | .loop body span? =>
    stmtsSites body + if anyExit body then 0 else {⟨.endless, some (span?.getD .dummy).start⟩}
  | .ifElse condition thenBody none _ =>
    condition.conditionSites + condition.sites + stmtsSites thenBody
  | .ifElse condition thenBody (some elseBody) _ =>
    condition.conditionSites + condition.sites + (stmtsSites thenBody + stmtsSites elseBody)
  | .breakLoop _ | .continueLoop _ | .fn _ | .bare _ | .unknown => 0

def stmtsSites : List Stmt → Multiset Site
  | [] => 0
  | s :: rest => s.sites + stmtsSites rest

end

def Stmt.ignoredSites : Stmt → Multiset Site
  | .expr e _ => {⟨.ignored, some e.place.start⟩}
  | _ => 0

/-- The sites of a function body, whose statements may be out of reach. -/
def bodySites : List Stmt → Multiset Site
  | [] => 0
  | s :: rest =>
    {⟨.unreachable, s.span?.map Span.start⟩} + (s.sites + s.ignoredSites) + bodySites rest

def FnDecl.sites (fn : FnDecl) : Multiset Site := bodySites fn.body

def lastSites : List Stmt → Multiset Site
  | [] => 0
  | [s] => s.sites
  | _ :: rest => lastSites rest

def initSites : List Stmt → Multiset Site
  | [] => 0
  | [_] => 0
  | s :: rest => s.sites + initSites rest

theorem lastSites_add_initSites (ss : List Stmt) :
    lastSites ss + initSites ss = stmtsSites ss := by
  induction ss with
  | nil => rfl
  | cons s rest ih =>
    cases rest with
    | nil => rfl
    | cons s' rest =>
      rw [lastSites, initSites, stmtsSites, ← ih, add_left_comm]
      all_goals simp

/-! ### Kinds of problems -/

/-- What is wrong with a name, a call or a jump for one reason only, a type that is not known, and
all else. -/
inductive ProblemKind
  | single
  | unknownType
  | mixed
deriving DecidableEq, Repr

def Problem.kind : Problem → ProblemKind
  | .undefinedVariable _ | .wrongArgCount .. | .breakOutsideLoop | .continueOutsideLoop => .single
  | .unknownType _ => .unknownType
  | _ => .mixed

abbrev Kinds := ProblemKind → Prop

abbrev anyKind : Kinds := fun _ => True

/-- The kinds of problem that an expression can have, if no statement stands in it. -/
def untyped (strict : Prop) : Kinds := fun kind => strict → kind ≠ .unknownType

theorem untyped_of_ne {strict : Prop} {kind : ProblemKind} (h : kind ≠ .unknownType) :
    untyped strict kind :=
  fun _ => h

/-! ### Walks -/

def Variable.strip (v : Variable) : Variable := { v with span? := none }

namespace CheckM

/-- The action does with names what the events say, or it records a problem and leaves some of them
out; it uses up at most the sites, and its other problems are of the kinds.  The second action does
the same at other places. -/
inductive Walks (strict inside : Prop) :
    {α : Type} → Kinds → List Event → Multiset Site → CheckM α → CheckM α → Prop
  | pure {α : Type} {K : Kinds} {s : Multiset Site} (a : α) :
    Walks strict inside K [] s (Pure.pure a : CheckM α) (Pure.pure a)
  | bind {α β : Type} {K : Kinds} {es es' : List Event} {s t : Multiset Site} {p q : CheckM α}
    {f g : α → CheckM β} (hp : Walks strict inside K es s p q)
    (hf : ∀ a, Walks strict inside K es' t (f a) (g a)) :
    Walks strict inside K (es ++ es') (s + t) (p >>= f) (q >>= g)
  | spare {α : Type} {K : Kinds} {es : List Event} {s t : Multiset Site} {p q : CheckM α}
    (hp : Walks strict inside K es s p q) (hst : s ≤ t) : Walks strict inside K es t p q
  | widen {α : Type} {K K' : Kinds} {es : List Event} {s : Multiset Site} {p q : CheckM α}
    (hp : Walks strict inside K es s p q) (hK : ∀ kind, K kind → K' kind) :
    Walks strict inside K' es s p q
  /-- What follows a look at the state depends on what is to be returned and on loops only. -/
  | look {α : Type} {K : Kinds} {es : List Event} {s : Multiset Site} {f g : Checker → CheckM α}
    (hf : ∀ c, Walks strict inside K es s (f c) (g c))
    (heq : ∀ c d : Checker, c.returns? = d.returns? → c.loopDepth = d.loopDepth →
      f c = f d ∧ g c = g d) :
    Walks strict inside K es s (get >>= f) (get >>= g)
  | report {K : Kinds} {es : List Event} {s : Multiset Site} (problem : Problem)
    (place place' : Span) (hK : K problem.kind) (hes : strict → Bracketed false es) :
    Walks strict inside K es s (report problem place) (report problem place')
  | reportMatch {K : Kinds} {es : List Event} (fault : MatchFault) (place place' : Span)
    (hes : strict → Bracketed false es) :
    Walks strict inside K es {⟨.matching, some place.start⟩} (reportMatch fault place)
      (reportMatch fault place')
  | warn {K : Kinds} {concern : Concern} {place? : Option Span}
    (hcode : siteKind? concern.code = none) (hplaced : (concern.toWarning place?).span?.isSome)
    (place?' : Option Span) :
    Walks strict inside K [] 0 (warn concern place?) (warn concern place?')
  | warnSite {K : Kinds} {concern : Concern} {kind : SiteKind} {place? place?' : Option Span}
    {pos? : Option Position} (hcode : siteKind? concern.code = some kind)
    (hpos : (concern.toWarning place?).span?.map Span.start = pos?) :
    Walks strict inside K [] {⟨kind, pos?⟩} (warn concern place?) (warn concern place?')
  | warnAlways {K : Kinds} {concern : Concern} {kind : SiteKind}
    (hcode : siteKind? concern.code = some kind) (place place' : Span) :
    Walks strict inside K [] {⟨kind, some place.start⟩} (warnAlways concern (some place))
      (warnAlways concern (some place'))
  | name {K : Kinds} {name : String} (hK : K .single) (hname : name ≠ "None")
    (place place' : Span) :
    Walks strict inside K [.use name] 0 (nameRule name place) (nameRule name place')
  | function {K : Kinds} {es : List Event} {s : Multiset Site} {args args' : CheckM (List Ty)}
    (hK : K .single) (hK' : K .mixed) (name : String) (count : Nat) (place place' : Span)
    (hargs : Walks strict inside K es s args args') (hes : strict → Bracketed false es) :
    Walks strict inside K (.call name :: es) s (functionRule name count args place)
      (functionRule name count args' place')
  | assign {K : Kinds} {es : List Event} {s : Multiset Site} {value value' : CheckM Ty}
    (hK : K .single) (hK' : K .mixed) (name : String) (place place' : Span)
    (hvalue : Walks strict inside K es s value value') (hes : strict → Bracketed false es) :
    Walks strict inside K (.assign name :: es) s (assignRule name value place)
      (assignRule name value' place')
  | declare {K : Kinds} {isMutable : Bool} {v v' : Variable} (name : String)
    (hstrip : v.strip = v'.strip) (hmutable : v.isMutable = isMutable) :
    Walks strict inside K [.declare name isMutable] 0 (defineVar name v) (defineVar name v')
  | marked {K : Kinds} {es : List Event} {s : Multiset Site} {p q : CheckM Unit} {name : String}
    (hp : Walks strict inside K es s p q) (hname : name ∈ es.filterMap Event.name?) :
    Walks strict inside K es s (do p; modifyEnv (·.markUsed name))
      (do q; modifyEnv (·.markUsed name))
  | scope {α : Type} {K : Kinds} {es : List Event} {s : Multiset Site} {p q : CheckM α}
    (hp : Walks strict inside K es s p q) :
    Walks strict inside K (bracket es) s (inScope p) (inScope q)
  | loop {α : Type} {K : Kinds} {es : List Event} {s : Multiset Site} {p q : CheckM α}
    (hp : Walks strict inside K es s p q) : Walks strict inside K es s (inLoop p) (inLoop q)
  | warnUnused {K : Kinds} (hinside : inside) (fnName : String) :
    Walks strict inside K [] 0 (warnUnused fnName) (warnUnused fnName)

namespace Walks

variable {strict inside : Prop} {α β : Type} {K : Kinds} {es es' : List Event}
  {s t : Multiset Site} {p q : CheckM α} {f g : α → CheckM β}

/-- An action that does nothing with names, behind another one. -/
theorem bind_eventless (hp : Walks strict inside K es s p q)
    (hf : ∀ a, Walks strict inside K [] t (f a) (g a)) :
    Walks strict inside K es (s + t) (p >>= f) (q >>= g) := by
  have h := hp.bind hf
  rwa [List.append_nil] at h

theorem bind_nil (hp : Walks strict inside K es s p q)
    (hf : ∀ a, Walks strict inside K [] 0 (f a) (g a)) :
    Walks strict inside K es s (p >>= f) (q >>= g) := by
  have h := hp.bind_eventless hf
  rwa [add_zero] at h

theorem nil_bind (hp : Walks strict inside K [] 0 p q)
    (hf : ∀ a, Walks strict inside K es s (f a) (g a)) :
    Walks strict inside K es s (p >>= f) (q >>= g) := by
  have h := hp.bind hf
  rwa [zero_add] at h

/-- An action that uses up no site, in front of another one. -/
theorem free_bind (hp : Walks strict inside K es 0 p q)
    (hf : ∀ a, Walks strict inside K es' s (f a) (g a)) :
    Walks strict inside K (es ++ es') s (p >>= f) (q >>= g) := by
  have h := hp.bind hf
  rwa [zero_add] at h

theorem bind_free (hp : Walks strict inside K es s p q)
    (hf : ∀ a, Walks strict inside K es' 0 (f a) (g a)) :
    Walks strict inside K (es ++ es') s (p >>= f) (q >>= g) := by
  have h := hp.bind hf
  rwa [add_zero] at h

theorem map (hp : Walks strict inside K es s p q) (f : α → β) :
    Walks strict inside K es s (p >>= fun a => Pure.pure (f a)) (q >>= fun a => Pure.pure (f a)) :=
  hp.bind_nil fun a => .pure (f a)

theorem ite {P : Prop} [Decidable P] {p' q' : CheckM α} (hp : Walks strict inside K es s p q)
    (hq : Walks strict inside K es s p' q') :
    Walks strict inside K es s (if P then p else p') (if P then q else q') := by
  split
  · exact hp
  · exact hq

/-- A problem that ends a construct. -/
theorem reported {problem : Problem} {place place' : Span} {a : α} (hK : K problem.kind)
    (hes : strict → Bracketed false es) :
    Walks strict inside K es s (do CheckM.report problem place; Pure.pure a)
      (do CheckM.report problem place'; Pure.pure a) :=
  (report problem place place' hK hes).map fun _ => a

theorem report_nil {problem : Problem} {place place' : Span} (hK : K problem.kind) :
    Walks strict inside K [] s (CheckM.report problem place) (CheckM.report problem place') :=
  report problem place place' hK fun _ => .nil

theorem reported_nil {problem : Problem} {place place' : Span} {a : α} (hK : K problem.kind) :
    Walks strict inside K [] s (do CheckM.report problem place; Pure.pure a)
      (do CheckM.report problem place'; Pure.pure a) :=
  reported hK fun _ => .nil

theorem quiet (h : Walks strict inside (· = .mixed) es s p q) :
    Walks strict inside (untyped strict) es s p q :=
  h.widen fun _ hkind => untyped_of_ne (hkind ▸ nofun)

theorem wide (h : Walks strict inside K es s p q) : Walks strict inside anyKind es s p q :=
  h.widen fun _ _ => trivial

/-- A walk leaves the scopes that it enters, if what it leaves out does. -/
theorem bracketed (h : Walks strict inside K es s p q) (hstrict : strict) : Bracketed true es := by
  induction h with
  | pure | warn | warnSite | warnAlways | warnUnused => exact .nil
  | @bind α β K es es' s t p q f g _ _ hp hf => exact hp.append (hf (p default).1)
  | spare _ _ ih | widen _ _ ih => exact ih
  | look _ _ hf => exact hf default
  | report _ _ _ _ hes | reportMatch _ _ _ hes => exact (hes hstrict).opened
  | name => exact .lookup rfl .nil
  | function _ _ _ _ _ _ _ _ hargs => exact .lookup rfl hargs
  | assign _ _ _ _ _ _ _ hvalue => exact .lookup rfl hvalue
  | declare => exact .declare .nil
  | marked _ _ hp => exact hp
  | scope _ hp => exact .bracket hp
  | loop _ hp => exact hp

end Walks

section Rules

variable {strict inside : Prop} {K : Kinds} {es : List Event} {s : Multiset Site}

/-! ### Written types -/

mutual

theorem readType_walks : ∀ t : TypeExpr,
    Walks strict inside (· ≠ .single) [] 0 (readType t) (readType t.strip)
  | .mk name params span? => by
    have hlength : (stripTypes params).length = params.length := by
      rw [stripTypes_eq_map, List.length_map]
    have hempty : (stripTypes params).isEmpty = params.isEmpty := by
      rw [stripTypes_eq_map, List.isEmpty_map]
    simp only [TypeExpr.strip, readType, hlength, hempty]
    refine .ite (.reported_nil nofun) ?_
    split
    · exact .ite (.pure _) (.reported_nil nofun)
    · split
      · exact .reported_nil nofun
      · exact .ite ((readTypes_walks params).map _) (.reported_nil nofun)

theorem readTypes_walks : ∀ ts : List TypeExpr,
    Walks strict inside (· ≠ .single) [] 0 (readTypes ts) (readTypes (stripTypes ts))
  | [] => .pure []
  | t :: ts => by
    exact (readType_walks t).nil_bind fun first => (readTypes_walks ts).map _

end

/-! ### Rules for expressions -/

theorem nameRule_walks (name : String) (place : Span) :
    Walks strict inside (untyped strict) (nameEvents name) 0 (nameRule name place)
      (nameRule name .dummy) := by
  rw [nameEvents]
  by_cases hname : name = "None"
  · subst hname
    exact .pure _
  · rw [if_neg (by simpa using hname)]
    exact .name (untyped_of_ne fun h => by cases h) hname place _

theorem binaryRule_walks (op : String) (left right : Ty) (place : Span) :
    Walks strict inside (· = .mixed) [] 0 (binaryRule op left right place)
      (binaryRule op left right .dummy) := by
  refine .ite (.pure _) (.ite ?_ (.ite ?_ (.ite ?_ (.pure _))))
  · exact .ite (.pure _) (.ite (.pure _) (.reported_nil rfl))
  · exact .ite (.pure _) (.reported_nil rfl)
  · exact .ite (.pure _) (.reported_nil rfl)

theorem unaryRule_walks (op : String) (operand : Ty) (place : Span) :
    Walks strict inside (· = .mixed) [] 0 (unaryRule op operand place)
      (unaryRule op operand .dummy) :=
  .ite (.reported_nil rfl) (.pure _)

theorem listRule_walks (types : List Ty) (place : Span) :
    Walks strict inside (· = .mixed) [] 0 (listRule types place) (listRule types .dummy) := by
  rw [listRule.eq_def, listRule.eq_def]
  split
  · exact .pure _
  · split
    · exact .reported_nil rfl
    · exact .pure _

theorem getRule_walks (types : List Ty) (place₁ place₂ place₁' place₂' : Span) :
    Walks strict inside (· = .mixed) [] 0 (getRule types place₁ place₂)
      (getRule types place₁' place₂') := by
  refine .ite ?_ (.nil_bind (.report_nil rfl) fun _ => ?_)
  all_goals
    split
    · exact .pure _
    · exact .ite (.pure _) (.reported_nil rfl)

theorem pushRule_walks (types : List Ty) (place₁ place₂ place₁' place₂' : Span) :
    Walks strict inside (· = .mixed) [] 0 (pushRule types place₁ place₂)
      (pushRule types place₁' place₂') := by
  rw [pushRule, pushRule]
  split
  · exact .ite (.pure _) (.reported_nil rfl)
  · exact .ite (.pure _) (.reported_nil rfl)

section Calls

variable {args args' : CheckM (List Ty)} (h : Walks strict inside (untyped strict) es s args args')
  (hes : strict → Bracketed false es)

include h hes

theorem constructorRule_walks (name : String) (count : Nat) (place : Span) :
    Walks strict inside (untyped strict) es s (constructorRule name count args place)
      (constructorRule name count args' .dummy) :=
  .ite (.reported (untyped_of_ne fun h => by cases h) hes)
    (.ite (h.map _) (.reported (untyped_of_ne fun h => by cases h) hes))

/-- Only functions are looked up; the forms of the language are not. -/
theorem callRule_walks (name : String) {places places' : List Span}
    (hplaces : places'.length = places.length) (place : Span) :
    Walks strict inside (untyped strict) (callEvents name ++ es) s (callRule name places args place)
      (callRule name places' args' .dummy) := by
  rw [callRule, callRule, callEvents, isForm, hplaces]
  by_cases hconstructor : (ValueConstructor.find? name).isSome = true
  · rw [if_pos hconstructor, if_pos hconstructor, hconstructor]
    exact constructorRule_walks h hes name _ place
  by_cases hget : (name == "get") = true
  · rw [if_neg hconstructor, if_neg hconstructor, if_pos hget, if_pos hget, hget, Bool.or_true,
      Bool.true_or]
    exact .ite (h.bind_nil fun _ => (getRule_walks ..).quiet)
      (.reported (untyped_of_ne fun h => by cases h) hes)
  by_cases hpush : (name == "push") = true
  · rw [if_neg hconstructor, if_neg hconstructor, if_neg hget, if_neg hget, if_pos hpush,
      if_pos hpush, hpush, Bool.or_true]
    exact .ite (h.bind_nil fun _ => (pushRule_walks ..).quiet)
      (.reported (untyped_of_ne fun h => by cases h) hes)
  · rw [if_neg hconstructor, if_neg hconstructor, if_neg hget, if_neg hget, if_neg hpush,
      if_neg hpush, if_neg (by simp_all)]
    exact .function (untyped_of_ne fun h => by cases h) (untyped_of_ne fun h => by cases h) name _
      place _ h hes

end Calls

theorem propagateRule_walks (operand : Ty) (place : Span) :
    Walks strict inside (· = .mixed) [] 0 (propagateRule operand place)
      (propagateRule operand .dummy) := by
  rw [propagateRule.eq_def, propagateRule.eq_def]
  split
  · refine .look (fun c => ?_) fun c d hreturns _ => by rw [hreturns]; exact ⟨rfl, rfl⟩
    split
    · exact .ite (.reported_nil rfl) (.pure _)
    · exact .reported_nil rfl
  · exact .reported_nil rfl

theorem patternBinding?_name {subject : Ty} {pattern : Pattern}
    (h : (expectedPatterns subject).contains pattern.name = true) :
    ((patternBinding? subject pattern).map Prod.fst).toList = pattern.bindings := by
  cases subject <;> cases pattern <;>
    first | rfl | exact absurd h (by simp [expectedPatterns, Pattern.name])

theorem armRule_walks (subject : Ty) (pattern : Pattern) {body body' : CheckM Ty}
    (h : Walks strict inside (untyped strict) es s body body') (hes : strict → Bracketed false es) :
    Walks strict inside (untyped strict) (bracket (declareAll pattern.bindings ++ es)) s
      (armRule subject pattern body) (armRule subject pattern.strip body') := by
  have hstrip : patternBinding? subject pattern.strip = patternBinding? subject pattern := by
    cases subject <;> cases pattern <;> rfl
  rw [armRule, armRule, Pattern.strip_name, hstrip]
  split
  · next hfits =>
    have hbindings := patternBinding?_name hfits
    refine .scope ?_
    split
    · next binding type hbinding =>
      rw [hbinding] at hbindings
      rw [← hbindings]
      exact Walks.free_bind (.declare binding rfl rfl) fun _ => h.map _
    · next hbinding =>
      rw [hbinding] at hbindings
      rw [← hbindings]
      exact h.map _
  · refine .reported (untyped_of_ne nofun) fun hstrict => .bracket ?_
    exact .append (.declareAll _) (hes hstrict).opened

/-- Of the two faults that a match can have as a whole, only one can be recorded. -/
theorem armsRule_walks (subject : Ty) (arms : List (String × Ty)) (place : Span) :
    Walks strict inside (· = .mixed) [] {⟨.matching, some place.start⟩}
      (armsRule subject arms place)
      (armsRule subject arms .dummy) := by
  refine .ite ?_ (.nil_bind (.report_nil rfl) fun _ => ?_)
  all_goals
    split
    · exact .pure _
    · split
      · exact (Walks.reportMatch _ _ _ fun _ => .nil).map _
      · exact .pure _

theorem matchRule_walks (subject : Ty) {arms arms' : CheckM (List (String × Ty))}
    (h : Walks strict inside (untyped strict) es s arms arms') (hes : strict → Bracketed false es)
    (place : Span) :
    Walks strict inside (untyped strict) es (s + {⟨.matching, some place.start⟩})
      (matchRule subject arms place)
      (matchRule subject arms' .dummy) := by
  refine .ite (((Walks.reportMatch _ _ _ hes).map _).spare (Multiset.le_add_left _ _)) ?_
  exact h.bind_eventless fun found => (armsRule_walks subject found place).quiet

/-! ### Rules for statements -/

theorem conditionRule_walks (hK : K .mixed) (condition : Expr) {type type' : CheckM Ty}
    (h : Walks strict inside K es s type type') :
    Walks strict inside K es (s + condition.conditionSites) (conditionRule condition type)
      (conditionRule condition.strip type') := by
  have hreport (t : Ty) : Walks strict inside K [] 0
      (do unless [Ty.bool, .any, .unknown].contains t do
        report (.conditionNotBool t.text) condition.place)
      (do unless [Ty.bool, .any, .unknown].contains t do
        report (.conditionNotBool t.text) condition.strip.place) :=
    .ite (.pure _) (.report_nil hK)
  rw [conditionRule, conditionRule]
  cases condition with
  | bool value span? =>
    exact h.bind_eventless fun t => (Walks.warnAlways rfl _ _).bind_nil fun _ => hreport t
  | _ => exact (h.bind_nil hreport).spare (Multiset.le_add_right _ _)

theorem branchRule_walks {es' : List Event} {t : Multiset Site} {last last' : CheckM Ty}
    {others others' : CheckM Unit} (h : Walks strict inside K es s last last')
    (h' : Walks strict inside K es' t others others') :
    Walks strict inside K (es ++ es') (s + t) (branchRule last others)
      (branchRule last' others') :=
  h.bind fun _ => h'.map _

theorem choiceRule_walks (thenType elseType : Ty) (place : Span) :
    Walks strict inside (· = .mixed) [] 0 (choiceRule thenType elseType place)
      (choiceRule thenType elseType .dummy) :=
  .ite (.pure _) (.reported_nil rfl)

theorem letRule_walks (name : String) (value : Ty) (type? : Option TypeExpr) (isMutable : Bool)
    (span? : Option Span) :
    Walks strict inside (· ≠ .single) [.declare name isMutable] 0
      (letRule name value type? isMutable span?)
      (letRule name value (type?.map TypeExpr.strip) isMutable none) := by
  cases type? with
  | none => exact .declare name rfl rfl
  | some written =>
    refine (readType_walks written).nil_bind fun expected => ?_
    have hdeclare : Walks strict inside (· ≠ .single) [.declare name isMutable] 0
        (defineVar name { type := expected, span?, isMutable })
        (defineVar name { type := expected, span? := none, isMutable }) := .declare name rfl rfl
    exact .ite hdeclare ((Walks.report_nil nofun).nil_bind fun _ => hdeclare)

theorem returnRule_walks (type : Ty) (place : Span) :
    Walks strict inside (· = .mixed) [] 0 (returnRule type place) (returnRule type .dummy) := by
  refine .look (fun c => ?_) fun c d hreturns _ => ?_
  · split
    · exact .ite (.pure _) (.report_nil rfl)
    · exact .pure _
  · rw [expectedReturn?, hreturns]
    exact ⟨rfl, rfl⟩

theorem elementRule_walks (collection : Ty) (place place' : Span) :
    Walks strict inside (· = .mixed) [] 0 (elementRule collection place)
      (elementRule collection place') := by
  rw [elementRule.eq_def, elementRule.eq_def]
  split
  · exact .pure _
  · exact .ite (.pure _) (.reported_nil rfl)

theorem forRule_walks (item : String) (element : Ty) {body body' : CheckM Unit}
    (h : Walks strict inside K es s body body') (span? : Option Span) :
    Walks strict inside K (bracket (.declare item false :: es)) s (forRule item element body span?)
      (forRule item element body' none) := by
  have hdeclare : Walks strict inside K [.declare item false] 0
      (defineVar item { type := element, span? }) (defineVar item { type := element }) :=
    .declare item rfl rfl
  exact .scope (.marked (hdeclare.free_bind fun _ => h.loop) (List.mem_cons_self ..))

theorem loopOnlyRule_walks {problem : Problem} (hK : K problem.kind) (place : Span) :
    Walks strict inside K [] 0 (loopOnlyRule problem place) (loopOnlyRule problem .dummy) := by
  refine .look (fun c => ?_) fun c d _ hloops => by rw [hloops]; exact ⟨rfl, rfl⟩
  exact .ite (.report_nil hK) (.pure _)

theorem ignoredRule_walks (type : Ty) (place place' : Span) :
    Walks strict inside (· = .mixed) [] {⟨.ignored, some place.start⟩} (ignoredRule type place)
      (ignoredRule type place') := by
  rw [ignoredRule.eq_def, ignoredRule.eq_def]
  split
  · exact .warnAlways rfl ..
  · exact .warnAlways rfl ..
  · exact .pure _

end Rules

/-! ### Unused names -/

def warnRow (fnName : String) (row : String × Variable) : CheckM Unit :=
  if row.2.isParam then warn (.unusedParameter row.1 fnName) row.2.span?
  else warn (.unusedVariable row.1) row.2.span?

end CheckM

open CheckM

theorem warnUnused_eq (fnName : String) :
    warnUnused fnName = (get >>= fun c => c.env.scope.unused.forM (warnRow fnName)) := by
  refine bind_congr fun c => ?_
  induction c.env.scope.unused with
  | nil => rfl
  | cons row rows ih =>
    obtain ⟨name, v⟩ := row
    show _ = (warnRow fnName (name, v) >>= fun _ => rows.forM (warnRow fnName))
    rw [List.forIn_cons, warnRow, ← ih]
    dsimp only
    cases v.isParam <;> rfl

variable {strict inside : Prop}

/-! ### The walk -/

mutual

theorem checkExpr_walks : ∀ e : Expr, (strict → e.Ordinary) →
    Walks strict inside (untyped strict) (e.events .checked) e.sites (checkExpr e)
      (checkExpr e.strip)
  | .int .., _ | .float .., _ | .string .., _ | .bool .., _ | .unknown, _ => by
    exact .pure _
  | .name name span?, _ => by
    exact nameRule_walks ..
  | .binary left op right span?, h => by
    have hleft := checkExpr_walks left fun hs => (onlyCalls_append.mp (h hs)).1
    have hright := checkExpr_walks right fun hs => (onlyCalls_append.mp (h hs)).2
    exact hleft.bind fun l => hright.bind_nil fun r => (binaryRule_walks ..).quiet
  | .unary op operand span?, h => by
    exact (checkExpr_walks operand h).bind_nil fun t => (unaryRule_walks ..).quiet
  | .call callee args span?, h => by
    have hordinary : strict → OnlyCalls (exprsHazards args) :=
      fun hs => (onlyCalls_append.mp (onlyCalls_append.mp (h hs)).2).1
    have hargs := checkExprs_walks args hordinary
    have hplaces : ((stripExprs args).map Expr.place).length = (args.map Expr.place).length := by
      simp [stripExprs_eq_map]
    cases callee with
    | name name span?' =>
      simp only [Expr.events, Expr.sites, Expr.strip, checkExpr, zero_add]
      exact callRule_walks hargs (fun hs => exprsEvents_closed _ args (hordinary hs)) name hplaces _
    | field object field span?' =>
      have hobject := checkExpr_walks object fun hs => (onlyCalls_append.mp (h hs)).1
      exact hobject.bind fun _ => hargs.map _
    | _ =>
      -- Only the arguments are looked at.
      exact (hargs.map _).spare (Multiset.le_add_left _ _)
  | .field object _ _, h => by
    exact (checkExpr_walks object h).map _
  | .propagate operand span?, h => by
    exact (checkExpr_walks operand h).bind_nil fun t => (propagateRule_walks ..).quiet
  | .list elements span?, h => by
    exact (checkExprs_walks elements h).bind_nil fun ts => (listRule_walks ..).quiet
  | .matching subject arms span?, h => by
    have hsubject := checkExpr_walks subject fun hs => (onlyCalls_append.mp (h hs)).1
    have hordinary : strict → OnlyCalls (armsHazards arms) :=
      fun hs => (onlyCalls_append.mp (h hs)).2
    simp only [Expr.events, Expr.sites, Expr.strip, checkExpr]
    rw [add_comm, add_assoc]
    refine hsubject.bind fun t => matchRule_walks t (checkArms_walks t arms hordinary) ?_ _
    exact fun hs => armsEvents_closed _ arms (hordinary hs)
  | .stmt s, h => by
    have hs : ¬ strict := fun hs => not_onlyCalls_node _ (h hs)
    simp only [Expr.events, Expr.sites, Expr.strip, checkExpr, Stmt.strip_isChoice]
    split
    · exact (checkStmt_walks .value s (absurd · hs)).widen fun _ _ => (absurd · hs)
    · exact .pure _

theorem checkExprs_walks : ∀ es : List Expr, (strict → OnlyCalls (exprsHazards es)) →
    Walks strict inside (untyped strict) (exprsEvents .checked es) (exprsSites es) (checkExprs es)
      (checkExprs (stripExprs es))
  | [], _ => by
    exact .pure _
  | e :: es, h => by
    have hfirst := checkExpr_walks e fun hs => (onlyCalls_append.mp (h hs)).1
    have hrest := checkExprs_walks es fun hs => (onlyCalls_append.mp (h hs)).2
    exact hfirst.bind fun first => hrest.map _

theorem checkArms_walks (subject : Ty) : ∀ arms : List Arm,
    (strict → OnlyCalls (armsHazards arms)) →
    Walks strict inside (untyped strict) (armsEvents .checked arms) (armsSites arms)
      (checkArms subject arms)
      (checkArms subject (stripArms arms))
  | [], _ => by
    exact .pure _
  | ⟨pattern, body, span?⟩ :: arms, h => by
    have hordinary : strict → body.Ordinary := fun hs => (onlyCalls_append.mp (h hs)).1
    have hbody := armRule_walks subject pattern (checkExpr_walks body hordinary)
      fun hs => body.events_closed _ (hordinary hs)
    have hrest := checkArms_walks subject arms fun hs => (onlyCalls_append.mp (h hs)).2
    exact hbody.bind fun first? => hrest.map _

/-- The check of a statement goes through its events. -/
theorem checkStmt_walks (use : Use) : ∀ s : Stmt, (strict → s.Ordinary) →
    Walks strict inside anyKind (s.events .checked use) s.sites (checkStmt use s)
      (checkStmt use s.strip)
  | .letVar name value type? isMutable span?, h => by
    exact (checkExpr_walks value h).wide.bind_free fun t => (letRule_walks ..).wide.map _
  | .assign name value span?, h => by
    have hclosed : strict → Bracketed false (value.events .checked) :=
      fun hs => value.events_closed _ (h hs)
    exact (Walks.assign trivial trivial name _ _ (checkExpr_walks value h).wide hclosed).map _
  | .expr e _, h => by
    exact (checkExpr_walks e h).wide
  | .ret none _, _ | .fn _, _ | .bare _, _ | .unknown, _ => by
    exact .pure _
  | .ret (some e) span?, h => by
    exact (checkExpr_walks e h).wide.bind_nil fun t => (returnRule_walks ..).wide.map _
  | .whileLoop condition body _, h => by
    have hcondition := conditionRule_walks trivial condition
      (checkExpr_walks condition fun hs => (onlyCalls_append.mp (h hs)).1).wide
    have hbody := checkStmts_walks body fun hs => (onlyCalls_append.mp (h hs)).2
    simp only [Stmt.events, Stmt.sites, Stmt.strip, checkStmt, Scoping.block]
    rw [add_comm condition.conditionSites]
    exact hcondition.bind fun _ => hbody.loop.map _
  | .forLoop item collection body span?, h => by
    have hcollection := checkExpr_walks collection fun hs => (onlyCalls_append.mp (h hs)).1
    have hbody := checkStmts_walks body fun hs => (onlyCalls_append.mp (h hs)).2
    refine hcollection.wide.bind fun t => (elementRule_walks ..).wide.nil_bind fun element => ?_
    exact (forRule_walks item element hbody _).map _
  | .loop body span?, h => by
    simp only [Stmt.events, Stmt.sites, Stmt.strip, checkStmt, Scoping.block, anyExit_strip]
    refine (checkStmts_walks body h).loop.bind_eventless fun _ => ?_
    split
    · exact .pure _
    · refine .map ?_ _
      exact .warnSite rfl rfl
  | .breakLoop _, _ | .continueLoop _, _ => by
    exact (loopOnlyRule_walks trivial _).map _
  | .ifElse condition thenBody none span?, h => by
    have hcondition := conditionRule_walks trivial condition
      (checkExpr_walks condition fun hs => (onlyCalls_append.mp (h hs)).1).wide
    have hthen := fun hs => (onlyCalls_append.mp (h hs)).2
    rw [Stmt.sites, add_comm condition.conditionSites]
    cases use with
    | effect =>
      exact hcondition.bind fun _ => (checkStmts_walks thenBody hthen).map _
    | value =>
      have hbranch := branchRule_walks (checkLast_walks thenBody hthen)
        (checkInit_walks thenBody hthen)
      rw [lastSites_add_initSites] at hbranch
      exact hcondition.bind fun _ => hbranch.map _
  | .ifElse condition thenBody (some elseBody) span?, h => by
    have hcondition := conditionRule_walks trivial condition
      (checkExpr_walks condition fun hs => (onlyCalls_append.mp (h hs)).1).wide
    have hthen := fun hs => (onlyCalls_append.mp (onlyCalls_append.mp (h hs)).2).1
    have helse := fun hs => (onlyCalls_append.mp (onlyCalls_append.mp (h hs)).2).2
    rw [Stmt.sites, add_comm condition.conditionSites]
    cases use with
    | effect =>
      have hstmts := checkStmts_walks elseBody helse
      refine hcondition.bind fun _ => (checkStmts_walks thenBody hthen).bind fun _ => ?_
      exact hstmts.map _
    | value =>
      have hbranch := branchRule_walks (checkLast_walks thenBody hthen)
        (checkInit_walks thenBody hthen)
      have hbranch' := branchRule_walks (checkLast_walks elseBody helse)
        (checkInit_walks elseBody helse)
      rw [lastSites_add_initSites] at hbranch hbranch'
      -- An `else` without statements is taken for none.
      cases elseBody with
      | nil =>
        simp only [Stmt.events, Stmt.strip, stripStmts, checkStmt, Scoping.block, lastEvents,
          initEvents]
        exact hcondition.bind fun _ => hbranch.bind fun thenType => .pure _
      | cons s rest =>
        simp only [stripStmts] at hbranch'
        refine hcondition.bind fun _ => hbranch.bind fun thenType => ?_
        exact hbranch'.bind_nil fun elseType => (choiceRule_walks ..).wide

theorem checkStmts_walks : ∀ ss : List Stmt, (strict → OnlyCalls (stmtsHazards ss)) →
    Walks strict inside anyKind (stmtsEvents .checked ss) (stmtsSites ss) (checkStmts ss)
      (checkStmts (stripStmts ss))
  | [], _ => by
    exact .pure _
  | s :: rest, h => by
    have hfirst := checkStmt_walks .effect s fun hs => (onlyCalls_append.mp (h hs)).1
    have hrest := checkStmts_walks rest fun hs => (onlyCalls_append.mp (h hs)).2
    exact hfirst.bind fun _ => hrest

theorem checkLast_walks : ∀ ss : List Stmt, (strict → OnlyCalls (stmtsHazards ss)) →
    Walks strict inside anyKind (lastEvents .checked ss) (lastSites ss) (checkLast ss)
      (checkLast (stripStmts ss))
  | [], _ => by
    exact .pure _
  | [s], h => by
    exact checkStmt_walks .value s fun hs => (onlyCalls_append.mp (h hs)).1
  | _ :: s :: rest, h => by
    have hrest := checkLast_walks (s :: rest) fun hs => (onlyCalls_append.mp (h hs)).2
    simp only [stripStmts] at hrest ⊢
    exact hrest

theorem checkInit_walks : ∀ ss : List Stmt, (strict → OnlyCalls (stmtsHazards ss)) →
    Walks strict inside anyKind (initEvents .checked ss) (initSites ss) (checkInit ss)
      (checkInit (stripStmts ss))
  | [], _ | [_], _ => by
    exact .pure _
  | s :: s' :: rest, h => by
    have hfirst := checkStmt_walks .effect s fun hs => (onlyCalls_append.mp (h hs)).1
    have hrest := checkInit_walks (s' :: rest) fun hs => (onlyCalls_append.mp (h hs)).2
    simp only [stripStmts] at hrest ⊢
    simp only [initEvents, initSites, checkInit] at hrest ⊢
    exact hfirst.bind fun _ => hrest

end

/-! ### Functions -/

theorem defineParam_walks (p : Param) :
    Walks strict inside (· ≠ .single) [.declare p.name false] 0 (defineParam p)
      (defineParam p.strip) := by
  obtain ⟨name, type?, span?⟩ := p
  cases type? with
  | none => exact .declare name rfl rfl
  | some written => exact (readType_walks written).nil_bind fun type => .declare name rfl rfl

theorem defineParams_walks (ps : List Param) :
    Walks strict inside (· ≠ .single) (declareAll (ps.map Param.name)) 0 (ps.forM defineParam)
      ((ps.map Param.strip).forM defineParam) := by
  induction ps with
  | nil => exact .pure _
  | cons p ps ih => exact (defineParam_walks p).free_bind fun _ => ih

/-- The value of an expression in a body is thrown away, if it is not the result. -/
theorem ignoredExpr_walks (isLast : Bool) (e : Expr) (type : Ty) :
    Walks strict inside (· = .mixed) [] {⟨.ignored, some e.place.start⟩}
      (do
        let isResult := isLast && (expectedReturn? (← get)).isSome
        unless isResult do ignoredRule type e.place
        return (type, false))
      (do
        let isResult := isLast && (expectedReturn? (← get)).isSome
        unless isResult do ignoredRule type e.strip.place
        return (type, false)) := by
  refine .look (fun c => .ite (.pure _) ((ignoredRule_walks ..).map _)) fun c d hreturns _ => ?_
  rw [expectedReturn?, hreturns]
  exact ⟨rfl, rfl⟩

theorem checkBodyStmt_walks (isLast : Bool) (s : Stmt) (h : strict → s.Ordinary) :
    Walks strict inside anyKind (s.events .checked .value) (s.sites + s.ignoredSites)
      (checkBodyStmt isLast s) (checkBodyStmt isLast s.strip) := by
  have hstmt : Walks strict inside anyKind (s.events .checked .value) s.sites (checkStmt .value s)
      (checkStmt .value s.strip) := checkStmt_walks .value s h
  have hreturns := Stmt.strip_returns s
  refine hstmt.bind_eventless fun type => ?_
  cases s with
  | expr e span? => exact (ignoredExpr_walks isLast e type).wide
  | ret value? span? => cases value? <;> exact .pure _
  | ifElse condition thenBody elseBody? span? =>
    cases elseBody? with
    | none => exact .pure _
    | some elseBody =>
      simp only [Stmt.strip] at hreturns ⊢
      rw [hreturns]
      exact .pure _
  | _ => exact .pure _

theorem checkBody_walks (returned : Bool) (ss : List Stmt)
    (h : strict → OnlyCalls (stmtsHazards ss)) :
    Walks strict inside anyKind (bodyEvents .checked ss) (bodySites ss) (checkBody returned ss)
      (checkBody returned (stripStmts ss)) := by
  induction ss generalizing returned with
  | nil => exact .pure _
  | cons s rest ih =>
    have hempty : (stripStmts rest).isEmpty = rest.isEmpty := by
      rw [stripStmts_eq_map, List.isEmpty_map]
    have hfirst : Walks strict inside anyKind (s.events .checked .value) (s.sites + s.ignoredSites)
        (checkBodyStmt rest.isEmpty s) (checkBodyStmt rest.isEmpty s.strip) :=
      checkBodyStmt_walks _ s fun hs => (onlyCalls_append.mp (h hs)).1
    have hrest := fun returned => ih returned fun hs => (onlyCalls_append.mp (h hs)).2
    have hboth : Walks strict inside anyKind (bodyEvents .checked (s :: rest))
        (s.sites + s.ignoredSites + bodySites rest)
        (do
          let r ← checkBodyStmt rest.isEmpty s
          if rest.isEmpty then return (r.1, returned || r.2)
          else checkBody (returned || r.2) rest)
        (do
          let r ← checkBodyStmt rest.isEmpty s.strip
          if rest.isEmpty then return (r.1, returned || r.2)
          else checkBody (returned || r.2) (stripStmts rest)) := by
      refine hfirst.bind fun r => ?_
      cases rest with
      | nil => exact .pure _
      | cons s' rest => exact hrest _
    -- The statement's place is used up only if it cannot be reached.
    simp only [stripStmts, checkBody, hempty, bodySites]
    rw [add_assoc]
    have hwarn : Walks strict inside anyKind [] {⟨.unreachable, s.span?.map Span.start⟩}
        (warn .unreachable s.span?) (warn .unreachable s.strip.span?) :=
      .warnSite rfl rfl
    exact .ite (hwarn.bind fun _ => hboth) (hboth.spare (Multiset.le_add_left _ _))

theorem resultRule_walks (expected : Ty) (last : Stmt) (type : Ty) :
    Walks strict inside (· = .mixed) [] 0 (resultRule expected last type)
      (resultRule expected last.strip type) := by
  simp only [resultRule, Stmt.strip_givesValue, Stmt.strip_lacksPath]
  exact .ite (.report_nil rfl) (.ite (.report_nil rfl) (.ite (.report_nil rfl) (.pure _)))

/-- What the check of a function does behind its body. -/
def endRule (fn : FnDecl) (expected? : Option Ty) (r : Ty × Bool) : CheckM Unit :=
  match fn.body.getLast?, expected? with
  | none, some expected =>
    report (.returnMismatch expected.text "Void (empty body)") (fn.span?.getD .dummy)
  | some last, some expected => do
    unless r.2 do
      resultRule expected last r.1
      warnUnused fn.name
  | _, none => do unless r.2 do warnUnused fn.name

/-- A body without statements is checked too, as nothing comes of it. -/
theorem checkInside_eq (fn : FnDecl) :
    checkInside fn =
      get >>= fun c => checkBody false fn.body >>= endRule fn (expectedReturn? c) := by
  refine bind_congr fun c => ?_
  unfold endRule
  cases hlast : fn.body.getLast? <;> cases expectedReturn? c with
  | none => rfl
  | some expected => ?_
  · rw [List.getLast?_eq_none_iff.mp hlast]
    rfl
  · rfl

theorem endRule_walks (hinside : inside) (fn : FnDecl) (expected? : Option Ty) (r : Ty × Bool) :
    Walks strict inside (· = .mixed) [] 0 (endRule fn expected? r)
      (endRule fn.strip expected? r) := by
  obtain ⟨name, params, body, returns?, span?⟩ := fn
  have hunused : Walks strict inside (· = .mixed) [] 0 (warnUnused name) (warnUnused name) :=
    .warnUnused hinside name
  simp only [FnDecl.strip, endRule, stripStmts_eq_map, List.getLast?_map]
  cases body.getLast? <;> cases expected?
  · exact .ite (.pure _) hunused
  · exact .report_nil rfl
  · exact .ite (.pure _) hunused
  · exact .ite (.pure _) ((resultRule_walks ..).nil_bind fun _ => hunused)

/-- What is inside of a function is checked in its scope, which is looked at as a whole. -/
theorem checkInside_walks (hinside : inside) (fn : FnDecl)
    (h : strict → OnlyCalls (stmtsHazards fn.body)) :
    Walks strict inside anyKind (bodyEvents .checked fn.body) fn.sites (checkInside fn)
      (checkInside fn.strip) := by
  have hbody : Walks strict inside anyKind (bodyEvents .checked fn.body) (bodySites fn.body)
      (checkBody false fn.body) (checkBody false (stripStmts fn.body)) :=
    checkBody_walks false fn.body h
  have hstrip : fn.strip.body = stripStmts fn.body := by
    obtain ⟨name, params, body, returns?, span?⟩ := fn
    rw [FnDecl.strip]
  rw [checkInside_eq, checkInside_eq, hstrip]
  refine .look (fun c => hbody.bind_nil fun r => ?_) fun c d hreturns _ => ?_
  · exact (endRule_walks hinside fn _ r).wide
  · rw [expectedReturn?, hreturns]
    exact ⟨rfl, rfl⟩

end Owl
