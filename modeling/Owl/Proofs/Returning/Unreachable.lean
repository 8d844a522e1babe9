/-
Code that no run gets to.

Behind a statement of a function body that returns on every path that the check can
see, each statement is warned about.  The check looks for a `return` in both branches
of a choice, whatever stands around it there, and not into loops.  This is right in
accepted programs, where no `break` or `continue` can leave such a branch.
-/
import Mathlib.Data.List.Pairwise
import Owl.Proofs.Returning.Functions
import Owl.Proofs.Visiting.Endless

namespace Owl

open Owl.Parser
open Checker CheckM

/-! ### Runs -/

/-- How control leaves statements. -/
inductive Leaving
  /-- It goes on behind them. -/
  | next
  | broke
  | continued
  | returned
deriving DecidableEq, Repr

mutual

/-- A run of a statement can end so.  A choice takes either branch. -/
inductive Stmt.Ends : Stmt → Leaving → Prop
  | letVar {name value type? isMutable span?} :
    Stmt.Ends (.letVar name value type? isMutable span?) .next
  | assign {name value span?} : Stmt.Ends (.assign name value span?) .next
  | expr {e span?} : Stmt.Ends (.expr e span?) .next
  | fn {f} : Stmt.Ends (.fn f) .next
  | bare {e} : Stmt.Ends (.bare e) .next
  | unknown : Stmt.Ends .unknown .next
  | ret {value? span?} : Stmt.Ends (.ret value? span?) .returned
  | breakLoop {span?} : Stmt.Ends (.breakLoop span?) .broke
  | continueLoop {span?} : Stmt.Ends (.continueLoop span?) .continued
  | thenTaken {condition thenBody elseBody? span? x} (hthen : StmtsEnd thenBody x) :
    Stmt.Ends (.ifElse condition thenBody elseBody? span?) x
  | elseTaken {condition thenBody elseBody span? x} (helse : StmtsEnd elseBody x) :
    Stmt.Ends (.ifElse condition thenBody (some elseBody) span?) x
  | skipped {condition thenBody span?} : Stmt.Ends (.ifElse condition thenBody none span?) .next
  | whileLoop {condition body span? x} (hloop : LoopEnds body x) :
    Stmt.Ends (.whileLoop condition body span?) x
  | forLoop {item collection body span? x} (hloop : LoopEnds body x) :
    Stmt.Ends (.forLoop item collection body span?) x
  | loop {body span? x} (hloop : LoopEnds body x) : Stmt.Ends (.loop body span?) x

/-- A run of statements can end so. -/
inductive StmtsEnd : List Stmt → Leaving → Prop
  | nil : StmtsEnd [] .next
  | cons {s rest x} (hfirst : s.Ends .next) (hrest : StmtsEnd rest x) : StmtsEnd (s :: rest) x
  | left {s rest x} (hfirst : s.Ends x) (hx : x ≠ .next) : StmtsEnd (s :: rest) x

/-- A run of a loop can end so.  It goes round any number of times. -/
inductive LoopEnds : List Stmt → Leaving → Prop
  | done {body} : LoopEnds body .next
  | broke {body} (hbody : StmtsEnd body .broke) : LoopEnds body .next
  | returned {body} (hbody : StmtsEnd body .returned) : LoopEnds body .returned
  | again {body x y} (hbody : StmtsEnd body x) (hx : x = .next ∨ x = .continued)
    (hloop : LoopEnds body y) : LoopEnds body y

end

/-- An end that goes with what is written: with jumps to a loop around, and with returns. -/
structure Leaving.Fits (jumps returns : Bool) (x : Leaving) : Prop where
  jumps : x = .broke ∨ x = .continued → jumps = true
  returns : x = .next → returns = false

theorem Leaving.Fits.eq_returned {x : Leaving} (h : x.Fits false true) : x = .returned := by
  cases x with
  | next => cases h.returns rfl
  | broke => cases h.jumps (.inl rfl)
  | continued => cases h.jumps (.inr rfl)
  | returned => rfl

mutual

theorem Stmt.Ends.fits : ∀ {s : Stmt} {x : Leaving}, s.Ends x → x.Fits s.jumps s.returns
  | _, _, .letVar | _, _, .assign | _, _, .expr | _, _, .fn | _, _, .bare | _, _, .unknown
  | _, _, .ret | _, _, .breakLoop | _, _, .continueLoop | _, _, .skipped => by
    constructor <;> simp [Stmt.returns]
  | .ifElse _ _ none _, _, .thenTaken hthen =>
    ⟨hthen.fits.jumps, fun _ => by simp [Stmt.returns]⟩
  | .ifElse _ _ (some _) _, _, .thenTaken hthen =>
    ⟨fun hx => by simp [hthen.fits.jumps hx], fun hx => by simp [Stmt.returns, hthen.fits.returns hx]⟩
  | _, _, .elseTaken helse =>
    ⟨fun hx => by simp [helse.fits.jumps hx], fun hx => by simp [Stmt.returns, helse.fits.returns hx]⟩
  | _, _, .whileLoop hloop | _, _, .forLoop hloop | _, _, .loop hloop =>
    ⟨hloop.fits.jumps, fun _ => by simp [Stmt.returns]⟩

/-- Runs end by a jump only if there is one, and do not go on behind what returns. -/
theorem StmtsEnd.fits : ∀ {ss : List Stmt} {x : Leaving}, StmtsEnd ss x →
    x.Fits (anyJumps ss) (anyReturns ss)
  | _, _, .nil => by constructor <;> simp [anyReturns]
  | _, _, .cons hfirst hrest =>
    ⟨fun hx => by simp [hrest.fits.jumps hx],
      fun hx => by simp [anyReturns, hfirst.fits.returns rfl, hrest.fits.returns hx]⟩
  | _, _, .left hfirst hx =>
    ⟨fun hx => by simp [hfirst.fits.jumps hx], fun hnext => absurd hnext hx⟩

theorem LoopEnds.fits : ∀ {body : List Stmt} {x : Leaving}, LoopEnds body x → x.Fits false false
  | _, _, .done | _, _, .broke _ | _, _, .returned _ => by constructor <;> simp
  | _, _, .again _ _ hloop => hloop.fits

end

theorem anyJumps_append (xs ys : List Stmt) :
    anyJumps (xs ++ ys) = (anyJumps xs || anyJumps ys) := by
  induction xs with
  | nil => rfl
  | cons x xs ih => rw [List.cons_append, anyJumps, anyJumps, ih, Bool.or_assoc]

/-! ### Warnings -/

/-- The new warnings about code that is not reached are those where `Q` holds, and those that sites
were used up for. -/
def Checker.WarnsOnly (Q : Warning → Prop) (sites : Multiset Site) (c d : Checker) : Prop :=
  ∀ w ∈ d.warnings, w.code = "W0201" →
    w ∈ c.warnings ∨ Q w ∨ ⟨.unreachable, w.span?.map Span.start⟩ ∈ sites

namespace Checker.WarnsOnly

variable {Q : Warning → Prop} {sites : Multiset Site} {c d e : Checker}

theorem of_warnings (h : d.warnings = c.warnings) : WarnsOnly Q sites c d :=
  fun _ hw _ => .inl (h ▸ hw)

theorem of_addWarning {w : Warning}
    (h : w.code = "W0201" → Q w ∨ ⟨.unreachable, w.span?.map Span.start⟩ ∈ sites) :
    WarnsOnly Q sites c { c with warnings := c.warnings ++ [w] } := by
  intro v hv hcode
  rcases List.mem_append.mp hv with hv | hv
  · exact .inl hv
  · rw [List.mem_singleton.mp hv] at hcode ⊢
    exact .inr (h hcode)

theorem addWarning {w : Warning}
    (h : w.code = "W0201" → Q w ∨ ⟨.unreachable, w.span?.map Span.start⟩ ∈ sites) :
    WarnsOnly Q sites c (c.addWarning w) := by
  rw [Checker.addWarning]
  split
  · exact of_warnings rfl
  · exact of_addWarning h

theorem trans {sites' : Multiset Site} (h : WarnsOnly Q sites c d) (h' : WarnsOnly Q sites' d e) :
    WarnsOnly Q (sites + sites') c e := by
  intro w hw hcode
  rcases h' w hw hcode with hw | hw | hw
  · exact (h w hw hcode).imp_right fun h => h.imp_right fun h => Multiset.mem_add.mpr (.inl h)
  · exact .inr (.inl hw)
  · exact .inr (.inr (Multiset.mem_add.mpr (.inr hw)))

theorem then_free (h : WarnsOnly Q 0 c d) (h' : WarnsOnly Q 0 d e) : WarnsOnly Q 0 c e :=
  h.trans h'

/-- Where sites of other kinds were used up, there are no other warnings. -/
theorem settle (h : WarnsOnly Q sites c d) (hsites : ∀ pos?, ⟨.unreachable, pos?⟩ ∉ sites) :
    WarnsOnly Q 0 c d :=
  fun w hw hcode => (h w hw hcode).imp_right fun h => .inl (h.resolve_right (hsites _))

end Checker.WarnsOnly

theorem Concern.eq_unreachable {concern : Concern} (h : concern.code = "W0201") :
    concern = .unreachable := by
  cases concern <;> first | rfl | simp [code] at h

theorem Checker.warnsOnly_account (Q : Warning → Prop) : Account anyKind (WarnsOnly Q) where
  refl c := .of_warnings rfl
  trans h h' := h.trans h'
  mono h hst := fun w hw hcode =>
    (h w hw hcode).imp_right fun h => h.imp_right (Multiset.mem_of_le hst)
  report c _ _ _ := by
    rw [addDiagnostic]
    split <;> exact .of_warnings rfl
  reportMatch c _ _ := .of_warnings rfl
  warn c _ _ hkind _ := .addWarning fun hcode => by
    cases Concern.eq_unreachable hcode
    cases hkind
  warnSite c _ _ hkind _ := .addWarning fun hcode => by
    cases Concern.eq_unreachable hcode
    cases hkind
    exact .inr (Multiset.mem_singleton_self _)
  warnAlways c _ _ hkind _ := .of_addWarning fun hcode => by
    cases Concern.eq_unreachable hcode
    cases hkind
    exact .inr (Multiset.mem_singleton_self _)
  defineVar c _ _ := .of_warnings rfl
  markUsed c _ := .of_warnings rfl
  scope h := h
  loop h := h

variable {file : String} {us : List Token} {Q : Warning → Prop}

theorem Placed.not_mem {kinds : List SiteKind} {sites : Multiset Site} {site : Site}
    (h : Placed kinds sites us) (hkind : site.kind ∉ kinds) : site ∉ sites := by
  have hcount := h site
  rw [if_neg hkind, Nat.le_zero] at hcount
  exact Multiset.count_eq_zero.mp hcount

/-- In a body, what is warned about stands behind statements of which one returns. -/
theorem checkBody_warnsOnly {ss : List Stmt} (h : Parts (Stmt.Read file) ss us) {returned : Bool}
    (hQ : ∀ (before : List Stmt) (s : Stmt) (after : List Stmt), ss = before ++ s :: after →
      (returned || anyReturns before) = true → Q (Concern.unreachable.toWarning s.span?))
    (c : Checker) :
    WarnsOnly Q 0 c (checkBody returned ss c).2 := by
  induction h generalizing returned c with
  | nil => exact .of_warnings rfl
  | @cons s rest us vs hfirst _ ih =>
    have hwarned : WarnsOnly Q 0 c (bodyState returned s c) := by
      rw [bodyState]
      split
      · next hreturned =>
        exact .addWarning fun _ => .inl (hQ [] s rest rfl (by simp [hreturned]))
      · exact .of_warnings rfl
    have hstmt : WarnsOnly Q 0 (bodyState returned s c)
        (checkBodyStmt rest.isEmpty s (bodyState returned s c)).2 := by
      refine (checkBodyStmt_costs (warnsOnly_account Q) _ s _).settle fun pos? => ?_
      rw [Multiset.mem_add, not_or]
      exact ⟨hfirst.stands.placed.not_mem (by simp), hfirst.stands.ignored.not_mem (by simp)⟩
    rw [checkBody_cons]
    cases rest with
    | nil => exact hwarned.then_free hstmt
    | cons s' rest =>
      refine (hwarned.then_free hstmt).then_free ?_
      show WarnsOnly Q 0 _ (checkBody (returned || (checkBodyStmt false s _).1.2) _ _).2
      rw [checkBodyStmt_returns]
      refine ih (fun before t after hsplit hreturns => ?_) _
      rw [Bool.or_assoc] at hreturns
      exact hQ (s :: before) t after (by rw [hsplit, List.cons_append]) hreturns

theorem checkFunction_warnsOnly {fn : FnDecl} (h : fn.Read file us)
    (hQ : ∀ (before : List Stmt) (s : Stmt) (after : List Stmt), fn.body = before ++ s :: after →
      anyReturns before = true → Q (Concern.unreachable.toWarning s.span?)) (c : Checker) :
    WarnsOnly Q 0 c (checkFunction fn c).2 := by
  obtain ⟨-, vs, hbody⟩ := h.inside
  have hR := warnsOnly_account Q
  have hstart : WarnsOnly Q 0 { c with env := c.env.push } (functionState fn c) :=
    (@defineParams_walks False True fn.params).wide.costs hR _
  show WarnsOnly Q 0 _ (checkInside fn (functionState fn c)).2
  rw [checkInside_eq]
  have hinside : ∀ c', WarnsOnly Q 0 c' (checkBody false fn.body c').2 :=
    checkBody_warnsOnly hbody hQ
  refine (hstart.then_free (hinside _)).then_free ?_
  exact (@endRule_walks False True trivial fn _ _).wide.costs hR _

theorem checkFunctions_warnsOnly {fns : List FnDecl} (h : ∀ fn ∈ fns, ∃ us, fn.Read file us)
    (hQ : ∀ fn ∈ fns, ∀ (before : List Stmt) (s : Stmt) (after : List Stmt),
      fn.body = before ++ s :: after → anyReturns before = true →
        Q (Concern.unreachable.toWarning s.span?)) (c : Checker) :
    WarnsOnly Q 0 c (fns.forM checkFunction c).2 := by
  induction fns generalizing c with
  | nil => exact .of_warnings rfl
  | cons fn fns ih =>
    rw [List.forall_mem_cons] at h hQ
    obtain ⟨us, hfn⟩ := h.1
    exact (checkFunction_warnsOnly hfn hQ.1 c).then_free (ih h.2 hQ.2 _)

/-- All that is warned about in a program that was read stands in a function body, behind
statements of which one returns. -/
theorem Program.Read.late {p : Program} (hp : p.Read file) {w : Warning}
    (hw : w ∈ (Checker.new.check p).warnings) (hcode : w.code = "W0201") :
    ∃ fn ∈ p.functions, ∃ (before : List Stmt) (s : Stmt) (after : List Stmt),
      fn.body = before ++ s :: after ∧ w.span? = s.span? ∧ anyReturns before = true := by
  let Q : Warning → Prop := fun w => ∃ fn ∈ p.functions,
    ∃ (before : List Stmt) (s : Stmt) (after : List Stmt), fn.body = before ++ s :: after ∧
      w.span? = s.span? ∧ anyReturns before = true
  have hR := warnsOnly_account Q
  have hdeclare (fn : FnDecl) : Costs (WarnsOnly Q) 0 (declare fn) :=
    .free_bind hR (signatureOf_costs hR (fun _ _ => trivial) fn) fun _ _ => .of_warnings rfl
  have hroot : WarnsOnly Q 0 Checker.new p.root :=
    (Costs.forM hR hdeclare p.functions new).then_free
      ((@imports_walks False True _).wide.costs hR _)
  have hfunctions : WarnsOnly Q 0 p.root (p.functions.forM checkFunction p.root).2 :=
    checkFunctions_warnsOnly hp.functions (fun fn hfn before s after hbody hreturns =>
      ⟨fn, hfn, before, s, after, hbody, rfl, hreturns⟩) _
  obtain ⟨us, hstatements⟩ := hp.statements
  have hcheck := (hroot.then_free hfunctions).then_free
    ((checkStmts_costs hR p.statements _).settle fun pos? =>
      (stmtsSites_placed hstatements).not_mem (by simp))
  rcases hcheck w hw hcode with hnew | hlate | hsite
  · cases hnew
  · exact hlate
  · cases hsite

/-! ### Places -/

theorem sublist_stmtsWithin (ss : List Stmt) : ss.Sublist (stmtsWithin ss) := by
  induction ss with
  | nil => exact .refl _
  | cons s rest ih =>
    have hfirst : [s].Sublist s.within := by
      rw [Stmt.within.eq_def, List.singleton_sublist]
      split <;> exact List.mem_cons_self ..
    exact hfirst.append ih

/-- Where statements start at places of their own, a place stands for one statement of one body. -/
theorem Program.split_unique {p : Program} (hstarts : (p.stmts.map Stmt.start?).Nodup)
    {fn fn' : FnDecl} (hfn : fn ∈ p.functions) (hfn' : fn' ∈ p.functions)
    {before after before' after' : List Stmt} {s s' : Stmt} (hbody : fn.body = before ++ s :: after)
    (hbody' : fn'.body = before' ++ s' :: after') (hstart : s.start? = s'.start?) :
    before = before' := by
  rw [Program.stmts, List.map_append, List.map_flatMap] at hstarts
  obtain ⟨hwithin, hapart⟩ := List.nodup_flatMap.mp hstarts.of_append_left
  have hmem {fn : FnDecl} {before after : List Stmt} {s : Stmt} (h : fn.body = before ++ s :: after) :
      s.start? ∈ (stmtsWithin fn.body).map Stmt.start? := by
    refine List.mem_map_of_mem ((sublist_stmtsWithin fn.body).subset ?_)
    simp [h]
  by_cases heq : fn = fn'
  · subst heq
    have hnodup := (hwithin fn hfn).sublist ((sublist_stmtsWithin fn.body).map _)
    rw [hbody] at hnodup hbody'
    obtain rfl : s = s' := List.inj_on_of_nodup_map hnodup (by simp) (by simp [hbody']) hstart
    have hself := List.nodup_middle.mp (List.Nodup.of_map _ hnodup)
    rw [List.nodup_cons, List.mem_append, not_or] at hself
    exact ((List.append_cons_inj_of_notMem hself.1.1 hself.1.2).mp hbody').1
  · have hsymm : Std.Symm (Function.onFun List.Disjoint fun fn : FnDecl =>
        (stmtsWithin fn.body).map Stmt.start?) := ⟨fun _ _ h => h.symm⟩
    have hdisjoint := hapart.forall hfn hfn' heq
    exact absurd (hstart ▸ hmem hbody') (hdisjoint (hmem hbody))

/-- **Code that is called unreachable is not reached.**  In a program that was read from a text and
accepted, every warning about unreachable code is at a statement of a function body.  Each run of
the statements before the one at its place leaves the function, whichever branches are taken and
however often loops go round. -/
theorem check_unreachable {source : String} {p : Program} (hp : readProgram file source = .ok p)
    (haccepted : (Checker.new.check p).findings = []) {w : Warning}
    (hw : w ∈ (Checker.new.check p).warnings) (hcode : w.code = "W0201") :
    (∃ fn ∈ p.functions, ∃ before s after, fn.body = before ++ s :: after ∧ w.span? = s.span?) ∧
    ∀ fn ∈ p.functions, ∀ before s after, fn.body = before ++ s :: after →
      s.start? = w.span?.map Span.start → ∀ x, StmtsEnd before x → x = .returned := by
  obtain ⟨tokens, htokens, hparse⟩ := of_readProgram_eq_ok hp
  obtain ⟨hstarts, -⟩ := stmts_traced_of_parse htokens hparse
  obtain ⟨fn, hfn, before, s, after, hbody, hspan, hreturns⟩ :=
    (Program.read_of_parse hparse).late hw hcode
  refine ⟨⟨fn, hfn, before, s, after, hbody, hspan⟩, ?_⟩
  intro fn' hfn' before' s' after' hbody' hstart x hx
  rw [hspan] at hstart
  obtain rfl := p.split_unique hstarts hfn' hfn hbody' hbody hstart
  have hjumps := p.not_anyJumps haccepted hfn'
  rw [hbody', anyJumps_append, Bool.or_eq_false_iff] at hjumps
  have hfits := hx.fits
  rw [hjumps.1, hreturns] at hfits
  exact hfits.eq_returned

/-- A statement behind a choice whose branches return, one of them behind a loop with a `break`. -/
theorem check_unreachable_choice :
    ∃ p, readProgram "" ("fn f(c) \x7b if c \x7b while c \x7b break \x7d return 1 \x7d\n" ++
        "else \x7b return 2 \x7d\nprint(c) \x7d") = .ok p ∧
      (Checker.new.check p).findings = [] ∧
      ∃ w ∈ (Checker.new.check p).warnings, w.code = "W0201" ∧ w.span?.map Span.start = some ⟨3, 1⟩ ∧
        (∃ fn ∈ p.functions, ∃ before s after, fn.body = before ++ s :: after ∧
          w.span? = s.span?) ∧
        ∀ fn ∈ p.functions, ∀ before s after, fn.body = before ++ s :: after →
          s.start? = w.span?.map Span.start → ∀ x, StmtsEnd before x → x = .returned := by
  refine exists_program (P := fun p => (Checker.new.check p).findings = [] ∧
      ∃ w ∈ (Checker.new.check p).warnings, w.code = "W0201" ∧
        w.span?.map Span.start = some ⟨3, 1⟩) toList_ofList_append (by decide +kernel) ?_
  rintro p hp ⟨haccepted, w, hw, hcode, hpos⟩
  exact ⟨haccepted, w, hw, hcode, hpos, check_unreachable hp haccepted hw hcode⟩

end Owl
