/-
What earlier programs change for a later one.

A checker keeps the names of the programs that it has checked.  So a later program
can find a name that it should not know, or find another thing under a name that
it knows.  Nothing else goes from one program to the next: what is recorded about
a program depends on the earlier ones only through the names that it looks up and
does not declare before.
-/
import Owl.Proofs.Checking.Frames

namespace Owl

/-! ### Names from outside -/

/-- A name that was not declared before it is looked up. -/
inductive Mention
  | var (name : String)
  | fn (name : String)
deriving DecidableEq, Repr

variable {c d : Checker} {r r' s s' : Scope} {m : Mention}

def Mention.name : Mention → String
  | var name | fn name => name

/-- What an event looks up and does not find in the frames.  Functions are in no frame. -/
def Event.outside (Γ : Frames) : Event → List Mention
  | use name | assign name => if (Γ.find? name).isSome then [] else [.var name]
  | call name => [.fn name]
  | enter | leave | declare .. => []

/-- What some events look up and do not find in the frames. -/
def outside (Γ : Frames) : List Event → List Mention
  | [] => []
  | e :: es => e.outside Γ ++ outside (e.step Γ) es

def Program.outside (p : Program) : List Mention :=
  (Owl.outside [[]] (p.events .checked)).filter fun m =>
    !(p.functions.map fun fn => Mention.fn fn.name).contains m

theorem outside_append (Γ : Frames) (es es' : List Event) :
    outside Γ (es ++ es') = outside Γ es ++ outside (after Γ es) es' := by
  induction es generalizing Γ with
  | nil => rfl
  | cons e es ih => rw [List.cons_append, outside, outside, ih, after_cons, List.append_assoc]

theorem outside_bracket (Γ : Frames) (es : List Event) :
    outside Γ (bracket es) = outside ([] :: Γ) es := by
  rw [bracket, outside, outside_append]
  exact List.append_nil _

def Scope.Agree (r r' : Scope) (name : String) : Prop :=
  (r.vars.get? name).map Variable.settled = (r'.vars.get? name).map Variable.settled

/-- A name stands for the same in two scopes.  A variable counts for a call only if there is no
function. -/
def Mention.Agrees (r r' : Scope) : Mention → Prop
  | var name => r.Agree r' name
  | fn name =>
    r.fns.get? name = r'.fns.get? name ∧ (r.fns.get? name = none → r.Agree r' name)

instance (r r' : Scope) (name : String) : Decidable (r.Agree r' name) :=
  inferInstanceAs (Decidable (_ = _))

instance (r r' : Scope) : (m : Mention) → Decidable (m.Agrees r r')
  | .var name => inferInstanceAs (Decidable (r.Agree r' name))
  | .fn name => inferInstanceAs (Decidable (r.fns.get? name = r'.fns.get? name ∧
      (r.fns.get? name = none → r.Agree r' name)))

theorem Scope.Agree.put {other : String} (h : r.Agree r' other) (name : String) (v : Variable) :
    Scope.Agree { r with vars := r.vars.put name v } { r' with vars := r'.vars.put name v }
      other := by
  rw [Agree, Table.get?_put, Table.get?_put]
  split
  · rfl
  · exact h

theorem Scope.agree_put (r r' : Scope) (name : String) (v : Variable) :
    Scope.Agree { r with vars := r.vars.put name v } { r' with vars := r'.vars.put name v }
      name := by
  rw [Agree, Table.get?_put, Table.get?_put, if_pos rfl, if_pos rfl]

theorem Scope.Agree.like {name : String} (h : r.Agree r' name) (hs : s.Like r) (hs' : s'.Like r') :
    s.Agree s' name :=
  (hs.vars name).trans (h.trans (hs'.vars name).symm)

theorem Mention.Agrees.put (h : m.Agrees r r') (name : String) (v : Variable) :
    m.Agrees { r with vars := r.vars.put name v } { r' with vars := r'.vars.put name v } := by
  cases m with
  | var other => exact Scope.Agree.put h name v
  | fn other => exact ⟨h.1, fun hnone => (h.2 hnone).put name v⟩

theorem Mention.Agrees.like (h : m.Agrees r r') (hs : s.Like r) (hs' : s'.Like r') :
    m.Agrees s s' := by
  cases m with
  | var name => exact Scope.Agree.like h hs hs'
  | fn name =>
    obtain ⟨hfn, hvar⟩ := h
    refine ⟨(hs.fns name).trans (hfn.trans (hs'.fns name).symm), fun hnone => ?_⟩
    exact (hvar ((hs.fns name).symm.trans hnone)).like hs hs'

theorem Mention.Agrees.putFn {name : String} (h : m.Agrees r r' ∨ m = .fn name) (s : Signature) :
    m.Agrees { r with fns := r.fns.put name s } { r' with fns := r'.fns.put name s } := by
  cases m with
  | var other =>
    obtain h | h := h
    · exact h
    · cases h
  | fn other =>
    show (r.fns.put name s).get? other = (r'.fns.put name s).get? other ∧
      ((r.fns.put name s).get? other = none → r.Agree r' other)
    rw [Table.get?_put, Table.get?_put]
    split
    · exact ⟨rfl, nofun⟩
    · next hother =>
      obtain h | h := h
      · exact h
      · exact absurd (Mention.fn.inj h).symm hother

/-! ### Tied scopes -/

/-- Nested scopes of which the inner ones are the same and declare what the frames say.  In the
outermost ones, names of the last frame and those of `K` stand for the same. -/
inductive Tied (K : Mention → Prop) : Frames → List Scope → List Scope → Prop
  | root {g : Frame} {r r' : Scope} (hframe : ∀ name, g.has name = true → r.Agree r' name)
    (hknown : ∀ m, K m → m.Agrees r r') : Tied K [g] [r] [r']
  | inner {f : Frame} {s : Scope} {Γ : Frames} {xs ys : List Scope}
    (hframe : ∀ name, f.has name = true → s.vars.has name = true) (hrest : Tied K Γ xs ys) :
    Tied K (f :: Γ) (s :: xs) (s :: ys)

namespace Tied

variable {K : Mention → Prop} {Γ : Frames} {xs ys : List Scope}

theorem var? (h : Tied K Γ xs ys) {name : String}
    (hname : (Γ.find? name).isSome = true ∨ K (.var name)) :
    (xs.findSome? fun s => s.vars.get? name).map Variable.settled =
      (ys.findSome? fun s => s.vars.get? name).map Variable.settled := by
  induction h with
  | @root g r r' hframe hknown =>
    have hagree : r.Agree r' name := by
      obtain hfound | hK := hname
      · refine hframe name ?_
        simpa [Frames.find?, Table.has] using hfound
      · exact hknown _ hK
    simpa [Scope.Agree] using hagree
  | @inner f s Γ xs ys hframe _ ih =>
    simp only [List.findSome?_cons]
    cases hs : s.vars.get? name with
    | some v => rfl
    | none =>
      refine ih (hname.imp_left fun hfound => ?_)
      -- What the scope does not have its frame does not have either.
      have hnot : f.get? name = none := by
        by_contra hf
        have hhas := hframe name (Option.isSome_iff_ne_none.mpr hf)
        rw [Table.has, hs] at hhas
        cases hhas
      simpa [Frames.find?, List.findSome?_cons, hnot] using hfound

theorem fn? (h : Tied K Γ xs ys) {name : String} (hname : K (.fn name)) :
    xs.findSome? (fun s => s.fns.get? name) = ys.findSome? (fun s => s.fns.get? name) ∧
      (xs.findSome? (fun s => s.fns.get? name) = none →
        (xs.findSome? fun s => s.vars.get? name).map Variable.settled =
          (ys.findSome? fun s => s.vars.get? name).map Variable.settled) := by
  induction h with
  | root hframe hknown =>
    obtain ⟨hfn, hvar⟩ := hknown _ hname
    simpa [Scope.Agree, hfn] using hvar
  | @inner f s Γ xs ys hframe _ ih =>
    simp only [List.findSome?_cons]
    cases s.fns.get? name with
    | some signature => exact ⟨rfl, nofun⟩
    | none =>
      refine ⟨ih.1, fun hnone => ?_⟩
      cases s.vars.get? name with
      | some v => rfl
      | none => exact ih.2 hnone

theorem markIn (h : Tied K Γ xs ys) (name : String) :
    Tied K Γ (Env.markIn name xs) (Env.markIn name ys) := by
  induction h with
  | @root g r r' hframe hknown =>
    -- A mark of use changes nothing that a look-up can see.
    obtain ⟨t, ts, ht, hts, hmark⟩ :=
      List.forall₂_cons_right_iff.mp (LikeScopes.markIn name [r])
    obtain ⟨t', ts', ht', hts', hmark'⟩ :=
      List.forall₂_cons_right_iff.mp (LikeScopes.markIn name [r'])
    rw [hmark, hmark', List.forall₂_nil_right_iff.mp hts, List.forall₂_nil_right_iff.mp hts']
    exact .root (fun other hother => (hframe other hother).like ht ht')
      fun m hm => (hknown m hm).like ht ht'
  | @inner f s Γ xs ys hframe hrest ih =>
    rw [Env.markIn, Env.markIn]
    split
    · refine .inner (fun other hother => ?_) hrest
      have hlike := (Scope.Like.marked s name).vars other
      have hhas := hframe other hother
      rw [Table.has] at hhas ⊢
      rw [← Option.isSome_map (f := Variable.settled)] at hhas ⊢
      rw [hlike]
      exact hhas
    · exact .inner hframe ih

theorem declare {f : Frame} (h : Tied K (f :: Γ) (s :: xs) (s' :: ys)) (name : String)
    (isMutable : Bool) (v : Variable) :
    Tied K (f.put name isMutable :: Γ) ({ s with vars := s.vars.put name v } :: xs)
      ({ s' with vars := s'.vars.put name v } :: ys) := by
  have hput : ∀ {other}, (f.put name isMutable).has other = true → name = other ∨
      f.has other = true := by
    intro other hother
    rw [Table.has, Table.get?_put] at hother
    split at hother
    · next heq => exact .inl heq
    · exact .inr hother
  cases h with
  | root hframe hknown =>
    refine .root (fun other hother => ?_) fun m hm => (hknown m hm).put name v
    obtain rfl | hf := hput hother
    · exact Scope.agree_put ..
    · exact (hframe other hf).put name v
  | inner hframe hrest =>
    refine .inner (fun other hother => ?_) hrest
    rw [Table.has, Table.get?_put]
    obtain rfl | hf := hput hother
    · rw [if_pos rfl, Option.isSome_some]
    · split
      · rfl
      · exact hframe other hf

theorem exists_cons (h : Tied K Γ xs ys) : (∃ x xs', xs = x :: xs') ∧ ∃ y ys', ys = y :: ys' := by
  cases h with
  | root => exact ⟨⟨_, _, rfl⟩, _, _, rfl⟩
  | inner => exact ⟨⟨_, _, rfl⟩, _, _, rfl⟩

theorem mono {K' : Mention → Prop} (hK : ∀ m, K' m → K m) (h : Tied K Γ xs ys) :
    Tied K' Γ xs ys := by
  induction h with
  | root hframe hknown => exact .root hframe fun m hm => hknown m (hK m hm)
  | inner hframe _ ih => exact .inner hframe ih

theorem putFn {g : Frame} (h : Tied K [g] (s :: xs) (s' :: ys)) (name : String)
    (signature : Signature) :
    Tied (fun m => K m ∨ m = .fn name) [g]
      ({ s with fns := s.fns.put name signature } :: xs)
      ({ s' with fns := s'.fns.put name signature } :: ys) := by
  cases h with
  | root hframe hknown =>
    exact .root hframe fun m hm => .putFn (hm.imp_left (hknown m)) signature
  | inner _ hrest => cases hrest

end Tied

theorem Env.scopes_pop {env : Env} {rest : List Scope} (h : env.outer = s :: rest) :
    env.pop.scopes = env.outer := by
  rw [pop, pop?, h]
  rfl

/-! ### Matched states -/

/-- States that differ in the outermost scope only. -/
structure Checker.Matched (K : Mention → Prop) (Γ : Frames) (c d : Checker) : Prop where
  scopes : Tied K Γ c.env.scopes d.env.scopes
  returns? : c.returns? = d.returns?
  loopDepth : c.loopDepth = d.loopDepth
  findings : c.findings = d.findings
  warnings : c.warnings = d.warnings

open Checker CheckM

section Matched

variable {K : Mention → Prop} {Γ : Frames}

theorem Checker.matched_recording (K : Mention → Prop) (Γ : Frames) :
    Recording fun _ _ => Matched K Γ where
  addDiagnostic {n l c d} h x := by
    have hsame : c.hasReported x.code x.span.start = d.hasReported x.code x.span.start := by
      rw [hasReported, hasReported, h.findings]
    rw [addDiagnostic, addDiagnostic, hsame]
    split
    · exact h
    · exact { h with findings := by rw [h.findings] }
  finding h f := { h with findings := by rw [h.findings] }
  addWarning {n l c d} h w := by
    rw [addWarning, addWarning, h.warnings]
    split
    · exact h
    · exact { h with warnings := rfl }
  warning h w := { h with warnings := by rw [h.warnings] }

theorem Checker.matched_markUsed (K : Mention → Prop) (Γ : Frames) (name : String) :
    Steady (fun _ _ => Matched K Γ) (modifyEnv (·.markUsed name)) := by
  refine .modify fun {n l c d} h => { h with scopes := ?_ }
  show Tied K Γ (c.env.markUsed name).scopes (d.env.markUsed name).scopes
  rw [Env.scopes_markUsed, Env.scopes_markUsed]
  exact h.scopes.markIn name

theorem Checker.Matched.declare (h : Matched K Γ c d) (name : String) (isMutable : Bool)
    (v : Variable) :
    Matched K ((Event.declare name isMutable).step Γ) { c with env := c.env.defineVar name v }
      { d with env := d.env.defineVar name v } := by
  refine { h with scopes := ?_ }
  have hscopes := h.scopes
  cases Γ with
  | nil => cases hscopes
  | cons f Γ => exact Tied.declare hscopes name isMutable v

theorem Checker.Matched.push (h : Matched K Γ c d) :
    Matched K ([] :: Γ) { c with env := c.env.push } { d with env := d.env.push } :=
  { h with scopes := .inner nofun h.scopes }

theorem Checker.Matched.pop {f g : Frame} (h : Matched K (f :: g :: Γ) c d) :
    Matched K (g :: Γ) { c with env := c.env.pop } { d with env := d.env.pop } := by
  refine { h with scopes := ?_ }
  show Tied K (g :: Γ) c.env.pop.scopes d.env.pop.scopes
  have hscopes : Tied K (f :: g :: Γ) (c.env.scope :: c.env.outer) (d.env.scope :: d.env.outer) :=
    h.scopes
  generalize c.env.scope = s at hscopes
  cases hscopes with
  | inner _ hrest =>
    obtain ⟨⟨t, ts, hc⟩, t', ts', hd⟩ := hrest.exists_cons
    rwa [Env.scopes_pop hc, Env.scopes_pop hd]

/-- A function looks its own name up, and finds the same type to return in both states. -/
theorem Checker.Matched.expect (h : Matched K Γ c d) {name : String} (hname : K (.fn name)) :
    Matched K Γ { c with returns? := (c.env.fn? name).map (·.returns) }
      { d with returns? := (d.env.fn? name).map (·.returns) } := by
  have hfn : c.env.fn? name = d.env.fn? name := (h.scopes.fn? hname).1
  exact { h with returns? := by rw [hfn] }

/-- Inside of a function, the innermost scopes are the same. -/
theorem Checker.Matched.scope_eq (h : Matched K Γ c d) (hdepth : 2 ≤ Γ.length) :
    c.env.scope = d.env.scope := by
  have hscopes : Tied K Γ (c.env.scope :: c.env.outer) (d.env.scope :: d.env.outer) := h.scopes
  generalize c.env.scope = s, c.env.outer = xs, d.env.outer = ys at hscopes
  cases hscopes with
  | root => exact absurd hdepth (Nat.not_succ_le_self 1)
  | inner => rfl

theorem Checker.Matched.exists_frame (h : Matched K Γ c d) : ∃ f Γ', Γ = f :: Γ' := by
  have hscopes := h.scopes
  cases Γ with
  | nil => cases hscopes
  | cons f Γ => exact ⟨f, Γ, rfl⟩

theorem Checker.Matched.sees (K : Mention → Prop) {Γ : Frames} {name : String}
    (h : ∀ m ∈ (if (Γ.find? name).isSome then [] else [Mention.var name]), K m) :
    Sees (fun _ _ => Matched K Γ) name := by
  intro n l c d hcd
  refine Variable.map_look (f := Variable.settled) (fun _ => rfl) (hcd.scopes.var? ?_)
  by_cases hfound : (Γ.find? name).isSome = true
  · exact .inl hfound
  · rw [if_neg hfound] at h
    exact .inr (h _ (List.mem_singleton.mpr rfl))

/-- A check that looks up no other names does the same in matched states, and leaves them so. -/
theorem CheckM.Walks.matched {inside : Prop} {α : Type} {N : Kinds} {es : List Event}
    {s : Multiset Site} {p q : CheckM α} (h : Walks True inside N es s p q)
    (hinside : inside → 2 ≤ Γ.length) (hout : ∀ m ∈ outside Γ es, K m) (hcd : Matched K Γ c d) :
    (p c).1 = (p d).1 ∧ Matched K (after Γ es) (p c).2 (p d).2 := by
  induction h generalizing Γ c d with
  | pure a => exact ⟨rfl, hcd⟩
  | @bind α β N es es' s t p q f g hp _ ihp ihf =>
    rw [outside_append, List.forall_mem_append] at hout
    obtain ⟨hvalue, hstate⟩ := ihp hinside hout.1 hcd
    obtain ⟨g, Γ', rfl⟩ := hcd.exists_frame
    show (f (p c).1 (p c).2).1 = (f (p d).1 (p d).2).1 ∧
      Matched K _ (f (p c).1 (p c).2).2 (f (p d).1 (p d).2).2
    rw [hvalue, after_append]
    -- Behind the first part, as many scopes are open as before it.
    refine ihf _ (fun hin => ?_) hout.2 hstate
    rw [(hp.bracketed trivial).length_after]
    exact hinside hin
  | spare _ _ ih | widen _ _ ih => exact ih hinside hout hcd
  | @look α N es s f g _ heq ih =>
    show (f c c).1 = (f d d).1 ∧ Matched K _ (f c c).2 (f d d).2
    rw [(heq c d hcd.returns? hcd.loopDepth).1]
    exact ih d hinside hout hcd
  | report problem place _ _ hes =>
    rw [(hes trivial).after_eq]
    exact report_steady (matched_recording K Γ) problem place (n := 0) (l := 0) hcd
  | reportMatch fault place _ hes =>
    rw [(hes trivial).after_eq]
    exact reportMatch_steady (matched_recording K Γ) fault place (n := 0) (l := 0) hcd
  | warn | warnSite =>
    exact warn_steady (matched_recording K Γ) _ _ (n := 0) (l := 0) hcd
  | warnAlways => exact warnAlways_steady (matched_recording K Γ) _ _ (n := 0) (l := 0) hcd
  | name _ hname place =>
    rw [outside, List.forall_mem_append] at hout
    exact nameRule_paired (report_steady (matched_recording K Γ) · place) (Matched.sees K hout.1)
      (matched_markUsed K Γ _) (n := 0) (l := 0) hcd
  | function _ _ name count place _ _ hes ih =>
    rw [outside, List.forall_mem_append, Event.step_of_isLookup rfl] at hout
    rw [after_cons, Event.step_of_isLookup rfl, (hes trivial).after_eq]
    -- The arguments declare nothing, so they are checked in the frames of the call.
    refine functionRule_paired (report_steady (matched_recording K Γ) · place)
      (fun n l c d h => ?_) count (fun n l c d h => ?_) (n := 0) (l := 0) hcd
    · obtain ⟨hfn, hvar⟩ := h.scopes.fn? (hout.1 _ (List.mem_singleton.mpr rfl))
      exact ⟨hfn, fun hnone =>
        Variable.map_look (f := Variable.settled) (fun _ => rfl) (hvar hnone)⟩
    · have hargs := ih hinside hout.2 h
      rwa [(hes trivial).after_eq] at hargs
  | assign _ _ name place _ _ hes ih =>
    rw [outside, List.forall_mem_append, Event.step_of_isLookup rfl] at hout
    rw [after_cons, Event.step_of_isLookup rfl, (hes trivial).after_eq]
    refine assignRule_paired (report_steady (matched_recording K Γ) · place)
      (Matched.sees K hout.1) (matched_markUsed K Γ name) (fun n l c d h => ?_) (n := 0) (l := 0) hcd
    have hvalue := ih hinside hout.2 h
    rwa [(hes trivial).after_eq] at hvalue
  | declare name => exact ⟨rfl, hcd.declare name _ _⟩
  | marked _ _ ih =>
    exact matched_markUsed K _ _ (n := 0) (l := 0) (ih hinside hout hcd).2
  | scope hp ih =>
    have hbracketed := hp.bracketed trivial
    rw [outside_bracket] at hout
    rw [hbracketed.after_bracket]
    obtain ⟨g, Γ', rfl⟩ := hcd.exists_frame
    have hdepth : inside → 2 ≤ ([] :: g :: Γ').length := fun hin => Nat.le_succ_of_le (hinside hin)
    obtain ⟨hvalue, hstate⟩ := ih hdepth hout hcd.push
    -- Of the frames, only the one that was opened can have changed, and it is closed again.
    obtain ⟨f, hf⟩ := hbracketed.exists_after [] (g :: Γ')
    rw [hf] at hstate
    exact ⟨hvalue, hstate.pop⟩
  | @loop α N es s p q _ ih =>
    have henter : Matched K Γ { c with loopDepth := c.loopDepth + 1 }
        { d with loopDepth := d.loopDepth + 1 } :=
      { hcd with loopDepth := by rw [hcd.loopDepth] }
    obtain ⟨hvalue, hstate⟩ := ih hinside hout henter
    have hleave := congrArg (· - 1) hstate.loopDepth
    exact ⟨hvalue, { hstate with loopDepth := hleave }⟩
  | warnUnused hin fnName =>
    exact warnUnused_steady (matched_recording K Γ) (fun h => h.scope_eq (hinside hin)) fnName
      (n := 0) (l := 0) hcd

end Matched

/-! ### Programs -/

section Programs

variable {K : Mention → Prop} {Γ : Frames} {f : Frame} {c d : Checker}

/-- Behind its declaration, a function is the same in both states. -/
theorem declare_matched (fn : FnDecl) (h : Matched K [f] c d) :
    Matched (fun m => K m ∨ m = .fn fn.name) [f] (declare fn c).2 (declare fn d).2 := by
  obtain ⟨hvalue, hstate⟩ := signatureOf_steady (matched_recording K [f]) fn (n := 0) (l := 0) h
  refine { hstate with scopes := ?_ }
  show Tied _ [f] ((signatureOf fn c).2.env.defineFn fn.name (signatureOf fn c).1).scopes
    ((signatureOf fn d).2.env.defineFn fn.name (signatureOf fn d).1).scopes
  rw [hvalue]
  exact Tied.putFn hstate.scopes fn.name _

theorem declares_matched (fns : List FnDecl) {K' : Mention → Prop}
    (hK : ∀ m, K' m → K m ∨ ∃ fn ∈ fns, m = .fn fn.name) (h : Matched K [f] c d) :
    Matched K' [f] (fns.forM declare c).2 (fns.forM declare d).2 := by
  induction fns generalizing K c d with
  | nil =>
    refine { h with scopes := h.scopes.mono fun m hm => ?_ }
    simpa using hK m hm
  | cons fn fns ih =>
    refine ih (fun m hm => ?_) (declare_matched fn h)
    simpa [or_assoc] using hK m hm

theorem checkFunction_matched {fn : FnDecl} (hbody : OnlyCalls (stmtsHazards fn.body))
    (hfn : K (.fn fn.name)) (hout : ∀ m ∈ outside (f :: Γ) (fn.events .checked), K m)
    (h : Matched K (f :: Γ) c d) :
    Matched K (f :: Γ) (checkFunction fn c).2 (checkFunction fn d).2 := by
  rw [FnDecl.events, outside_bracket, outside_append, List.forall_mem_append] at hout
  have hparams := Bracketed.declareAll (fn.params.map Param.name)
  have hwalk := @checkInside_walks True True trivial fn fun _ => hbody
  obtain ⟨-, hdefined⟩ :=
    (@defineParams_walks True True fn.params).matched (fun _ => by simp) hout.1 h.push
  have hdepth : 2 ≤ (after ([] :: f :: Γ) (declareAll (fn.params.map Param.name))).length := by
    rw [hparams.length_after]
    simp
  obtain ⟨-, hend⟩ := hwalk.matched (fun _ => hdepth) hout.2 (hdefined.expect hfn)
  obtain ⟨g, hg⟩ := (hparams.append (hwalk.bracketed trivial)).exists_after [] (f :: Γ)
  rw [← after_append, hg] at hend
  exact { hend.pop with returns? := rfl }

theorem checkFunctions_matched {fns : List FnDecl}
    (hbodies : ∀ fn ∈ fns, OnlyCalls (stmtsHazards fn.body)) (hfns : ∀ fn ∈ fns, K (.fn fn.name))
    (hout : ∀ m ∈ outside (f :: Γ) (fns.flatMap (FnDecl.events .checked)), K m)
    (h : Matched K (f :: Γ) c d) :
    Matched K (f :: Γ) (fns.forM checkFunction c).2 (fns.forM checkFunction d).2 := by
  induction fns generalizing c d with
  | nil => exact h
  | cons fn fns ih =>
    rw [List.forall_mem_cons] at hbodies hfns
    rw [List.flatMap_cons, outside_append, List.forall_mem_append,
      (FnDecl.events_closed hbodies.1).after_eq] at hout
    exact ih hbodies.2 hfns.2 hout.2 (checkFunction_matched hbodies.1 hfns.1 hout.1 h)

theorem checkProgram_matched {p : Program} (hp : OnlyCalls p.hazards)
    (hout : ∀ m ∈ p.outside, K m) (h : Matched K [[]] c d) :
    (checkProgram p c).2.findings = (checkProgram p d).2.findings ∧
      (checkProgram p c).2.warnings = (checkProgram p d).2.warnings := by
  obtain ⟨hbodies, hstatements⟩ := hp.program
  have hout : ∀ m ∈ outside [[]] (p.events .checked),
      K m ∨ ∃ fn ∈ p.functions, m = .fn fn.name := by
    intro m hm
    by_cases hown : ∃ fn ∈ p.functions, m = .fn fn.name
    · exact .inr hown
    · refine .inl (hout m (List.mem_filter.mpr ⟨hm, ?_⟩))
      rw [Bool.not_eq_true', ← Bool.not_eq_true, List.contains_iff_mem, List.mem_map]
      rintro ⟨fn, hfn, hname⟩
      exact hown ⟨fn, hfn, hname.symm⟩
  rw [Program.events, outside_append, outside_append, List.forall_mem_append,
    List.forall_mem_append] at hout
  obtain ⟨himports, hfunctions, hrest⟩ := hout
  have hdeclared := declares_matched p.functions (fun m hm => hm) h
  obtain ⟨-, himported⟩ := (@imports_walks True False _).matched False.elim himports hdeclared
  obtain ⟨g, hg⟩ := (Bracketed.declareAll (p.imports.flatMap Import.bound)).exists_after [] []
  rw [hg] at himported hfunctions hrest
  have hchecked := checkFunctions_matched hbodies (fun fn hfn => .inr ⟨fn, hfn, rfl⟩) hfunctions
    himported
  rw [(functionsEvents_closed hbodies).after_eq] at hrest
  obtain ⟨-, hend⟩ :=
    (@checkStmts_walks True False p.statements fun _ => hstatements).matched False.elim hrest
      hchecked
  exact ⟨hend.findings, hend.warnings⟩

end Programs

/-! ### Sessions -/

/-- Whether one of some programs declares a name for those that are checked after it. -/
def declaredBy (ps : List Program) (name : String) : Bool :=
  ((after [[]] (ps.flatMap (Program.events .checked))).find? name).isSome ||
    ((ps.flatMap Program.functions).map FnDecl.name).contains name

theorem Env.Shape.get?_eq_none {Γ : Frames} {F : List (Table Signature)} {env : Env}
    (h : env.Shape Γ F) (houter : env.outer = []) {name : String} (hname : Γ.find? name = none) :
    env.scope.vars.get? name = none := by
  have hvar := h.var? name
  rw [hname, Option.map_eq_none_iff, Env.var?, scopes, houter] at hvar
  simpa using hvar

/-- A name that no earlier program declares stands for what it stands for in a new checker. -/
theorem agrees_of_not_declaredBy {ps : List Program} (hps : ∀ p ∈ ps, p.Parsed)
    (hm : declaredBy ps m.name = false) :
    m.Agrees (ps.foldl Checker.check Checker.new).env.scope Checker.new.env.scope := by
  obtain ⟨hvars, hfns⟩ := Bool.or_eq_false_iff.mp hm
  obtain ⟨rows, hkeys, hshape⟩ := foldl_check_shape hps new_shape
  have houter := (resting_foldl_check ps resting_new).outer
  generalize (ps.foldl Checker.check Checker.new).env = env at hshape houter
  have hvar : env.scope.Agree Checker.new.env.scope m.name := by
    have hnone := Option.not_isSome_iff_eq_none.mp (Bool.eq_false_iff.mp hvars)
    rw [Scope.Agree, hshape.get?_eq_none houter hnone,
      new_shape.get?_eq_none resting_new.outer rfl]
  have hfn : env.scope.fns.get? m.name = Checker.new.env.scope.fns.get? m.name := by
    rw [(List.cons.inj hshape.fns).1]
    refine Table.get?_putAll_of_not_mem ?_ _
    show m.name ∉ rows.keys
    rw [hkeys, ← List.contains_iff_mem, hfns]
    exact Bool.false_ne_true
  cases m with
  | var name => exact hvar
  | fn name => exact ⟨hfn, fun _ => hvar⟩

/-- **Programs are independent but for their names.**  After any programs, a program is checked as
by a new checker, if every name that it looks up outside of itself and that an earlier program
declared stands for what it stands for in a new checker. -/
theorem check_leftover {ps : List Program} (hps : ∀ q ∈ ps, q.Parsed) {p : Program} (hp : p.Parsed)
    (h : ∀ m ∈ p.outside, declaredBy ps m.name = true →
      m.Agrees (ps.foldl Checker.check Checker.new).env.scope Checker.new.env.scope) :
    ((ps.foldl Checker.check Checker.new).check p).findings = (Checker.new.check p).findings ∧
      ((ps.foldl Checker.check Checker.new).check p).warnings = (Checker.new.check p).warnings := by
  have hrest := resting_foldl_check ps resting_new
  have hagrees : ∀ m ∈ p.outside,
      m.Agrees (ps.foldl Checker.check Checker.new).env.scope Checker.new.env.scope := by
    intro m hm
    by_cases hdeclared : declaredBy ps m.name = true
    · exact h m hm hdeclared
    · exact agrees_of_not_declaredBy hps (Bool.eq_false_of_not_eq_true hdeclared)
  refine checkProgram_matched hp.onlyCalls hagrees
    ⟨?_, hrest.returns?, hrest.loopDepth, rfl, rfl⟩
  show Tied _ [[]] (_ :: _) (_ :: _)
  rw [hrest.outer]
  exact .root nofun fun m hm => hm

/-- A call of `print` after a variable of this name was declared, and of a variable that no program
declares. -/
theorem check_leftover_shadowed :
    ∃ q p, readProgram "" "let print = 1" = .ok q ∧
      readProgram "" "fn g(x) \x7b print(x) \x7d\ng(y)" = .ok p ∧
      p.outside = [.fn "print", .var "y"] ∧
      ((Checker.new.check q).check p).findings = (Checker.new.check p).findings ∧
      ((Checker.new.check q).check p).warnings = (Checker.new.check p).warnings := by
  simp only [exists_and_left]
  refine exists_program (P := fun q =>
      (readChars "" "fn g(x) \x7b print(x) \x7d\ng(y)".toList).toOption.any fun p =>
        p.outside = [.fn "print", .var "y"] ∧ ∀ m ∈ p.outside, declaredBy [q] m.name = true →
          m.Agrees (Checker.new.check q).env.scope Checker.new.env.scope)
    String.toList_ofList (by decide +kernel) fun q hq hread => ?_
  refine exists_program rfl hread ?_
  rintro p hp ⟨houtside, hagrees⟩
  have hparsed : ∀ r ∈ [q], r.Parsed := List.forall_mem_singleton.mpr (parsed_of_readProgram hq)
  exact ⟨houtside, check_leftover hparsed (parsed_of_readProgram hp) hagrees⟩

/-- A program that uses a variable of the one before: it is not found to be undefined. -/
theorem check_remembers :
    ∃ q p, readProgram "" "let x = 1" = .ok q ∧ readProgram "" "let y = x" = .ok p ∧
      ((Checker.new.check q).check p).findings = [] ∧
      (Checker.new.check p).findings.map Finding.code = ["E0302"] := by
  simp only [exists_and_left]
  refine exists_program (P := fun q =>
      (readChars "" "let y = x".toList).toOption.any fun p =>
        ((Checker.new.check q).check p).findings = [] ∧
          (Checker.new.check p).findings.map Finding.code = ["E0302"])
    String.toList_ofList (by decide +kernel) fun q _ hread => ?_
  exact exists_program rfl hread fun _ _ h => h

end Owl
