/-
Loops that do not end.

A loop is warned about if nothing in its body leaves it.  The check looks for a
`return` or a `break` at every depth of the body, in the loops that stand there too.
So a loop whose body holds no more than a `break` out of another loop is not warned
about, though nothing leaves it.
-/
import Owl.Proofs.Checking.Once
import Owl.Proofs.Nesting
import Owl.Proofs.Visiting.Jumps

namespace Owl

open Owl.Parser
open Checker CheckM

/-! ### Exits -/

def Stmt.isReturn : Stmt → Bool
  | .ret .. => true
  | _ => false

def Stmt.isBreak : Stmt → Bool
  | .breakLoop _ => true
  | _ => false

/-- Whether a statement is one that the check takes for the exit of all loops around it. -/
def Stmt.isExit (s : Stmt) : Bool := s.isReturn || s.isBreak

mutual

theorem Stmt.hasExit_eq : ∀ s : Stmt, s.hasExit = s.within.any Stmt.isExit
  | .ifElse _ thenBody none _ => by
    rw [Stmt.hasExit, Stmt.within, List.any_cons, anyExit_eq thenBody]
    rfl
  | .ifElse _ thenBody (some elseBody) _ => by
    rw [Stmt.hasExit, Stmt.within, List.any_cons, List.any_append, anyExit_eq thenBody,
      anyExit_eq elseBody]
    rfl
  | .whileLoop _ body _ | .forLoop _ _ body _ | .loop body _ => by
    rw [Stmt.hasExit, Stmt.within, List.any_cons, anyExit_eq body]
    rfl
  | .letVar .. | .assign .. | .expr .. | .ret none _ | .ret (some _) _ | .breakLoop _
  | .continueLoop _ | .fn _ | .bare _ | .unknown => rfl

/-- What is looked for are the `return` and `break` statements of a body. -/
theorem anyExit_eq : ∀ ss : List Stmt, anyExit ss = (stmtsWithin ss).any Stmt.isExit
  | [] => rfl
  | s :: rest => by rw [anyExit, stmtsWithin, List.any_append, s.hasExit_eq, anyExit_eq rest]

end

/-! ### Places of statements -/

def Stmt.start? (s : Stmt) : Option Position := s.span?.map Span.start

def Stmt.endlessAt (pos? : Option Position) : Stmt → Bool
  | .loop body span? => !anyExit body && span?.map Span.start == pos?
  | _ => false

/-- Statements start at tokens of their own, and the loops without an exit among them are the sites
of such loops. -/
structure Traced (ss : List Stmt) (sites : Multiset Site) (us : List Token) : Prop where
  starts : (ss.map Stmt.start?).Sublist (places us)
  endless : ∀ pos?, sites.count ⟨.endless, pos?⟩ = ss.countP (·.endlessAt pos?)

namespace Traced

variable {s : Stmt} {ss ss' : List Stmt} {sites sites' : Multiset Site} {us us' : List Token}

theorem append (h : Traced ss sites us) (h' : Traced ss' sites' us') :
    Traced (ss ++ ss') (sites + sites') (us ++ us') := by
  refine ⟨?_, fun pos? => ?_⟩
  · rw [List.map_append, places_append]
    exact h.starts.append h'.starts
  · rw [Multiset.count_add, List.countP_append, h.endless, h'.endless]

theorem sublist (h : Traced ss sites us) (hsub : us.Sublist us') : Traced ss sites us' :=
  ⟨h.starts.trans (hsub.map _), h.endless⟩

theorem of_placed (h : Placed exprKinds sites us') : Traced [] sites us := by
  refine ⟨List.nil_sublist _, fun pos? => Nat.le_zero.mp ?_⟩
  exact (h ⟨.endless, pos?⟩).trans_eq (if_neg (by simp))

/-- A statement that is no loop and holds expressions alone. -/
theorem of_starts (hstarts : StartsIn s.span? us) (h : Placed exprKinds sites us')
    (hs : ∀ pos?, s.endlessAt pos? = false) : Traced [s] sites us := by
  obtain ⟨t, ht, hstart⟩ := hstarts
  refine ⟨List.singleton_sublist.mpr (List.mem_map.mpr ⟨t, ht, hstart.symm⟩), fun pos? => ?_⟩
  have hnone : Traced [] sites us := of_placed h
  rw [hnone.endless, List.countP_cons_of_neg (by simp [hs pos?])]

/-- A statement that starts at its keyword, in front of what stands in it. -/
theorem of_keyword {file : String} {keyword : Token} (h : Traced ss sites us)
    (hspan : s.span? = some (keyword.span file)) (hs : ∀ pos?, s.endlessAt pos? = false) :
    Traced (s :: ss) sites (keyword :: us) := by
  have hfirst : Traced [s] 0 [keyword] := by
    refine .of_starts ?_ (.zero _ []) hs
    rw [hspan]
    exact .token rfl (List.mem_singleton_self _)
  have hall := hfirst.append h
  rwa [zero_add] at hall

end Traced

variable {file : String}

mutual

theorem Stmt.Read.traced : ∀ {s : Stmt} {us : List Token}, s.Read file us →
    Traced s.within s.sites us
  | _, _, .letVar keyword name isMutable htype hvalue => by
    have hstarts := (Stmt.Read.letVar keyword name isMutable htype hvalue).stands.starts
    exact .of_starts hstarts hvalue.stands.placed fun _ => rfl
  | _, _, .assign name hvalue => by
    exact .of_starts (Stmt.Read.assign name hvalue).stands.starts hvalue.stands.placed fun _ => rfl
  | _, _, .retValue keyword hvalue => by
    have hstarts := (Stmt.Read.retValue keyword hvalue).stands.starts
    exact .of_starts hstarts hvalue.stands.placed fun _ => rfl
  | _, _, .expr he => by
    exact .of_starts he.stands.starts he.stands.placed fun _ => rfl
  | _, _, .ret _ | _, _, .breakLoop _ | _, _, .continueLoop _ =>
    .of_keyword (.of_placed (.zero _ [])) rfl fun _ => rfl
  | _, _, .whileLoop _ hcondition hbody | _, _, .ifThen _ hcondition hbody => by
    refine .of_keyword ?_ rfl fun _ => rfl
    exact (Traced.of_placed hcondition.stands.condition).append (stmts_traced hbody)
  | _, _, @Stmt.Read.forLoop _ collection _ us _ _ item hcollection hbody => by
    have hfirst : Traced [] collection.sites (item :: us) := .of_placed hcollection.stands.placed
    exact .of_keyword (hfirst.append (stmts_traced hbody)) rfl fun _ => rfl
  | _, _, .ifElse _ hcondition hthen helse => by
    refine .of_keyword ?_ rfl fun _ => rfl
    have hbodies := (stmts_traced hthen).append (stmts_traced helse)
    exact (Traced.of_placed hcondition.stands.condition).append hbodies
  | .loop body _, _, .loop keyword hbody => by
    have hfirst : Traced [.loop body (some (keyword.span file))]
        (if anyExit body then 0 else {⟨.endless, some keyword.pos⟩}) [keyword] := by
      refine ⟨List.Sublist.refl _, fun pos? => ?_⟩
      rw [List.countP_singleton, Stmt.endlessAt]
      cases anyExit body <;>
        simp [Multiset.count_singleton, Token.span, Span.single, @eq_comm _ pos?]
    rw [Stmt.sites, add_comm]
    exact hfirst.append (stmts_traced hbody)

theorem stmts_traced : ∀ {ss : List Stmt} {us : List Token}, Parts (Stmt.Read file) ss us →
    Traced (stmtsWithin ss) (stmtsSites ss) us
  | _, _, .nil => .of_placed (.zero _ [])
  | _, _, .cons hfirst hmore => by
    exact hfirst.traced.append (stmts_traced hmore)

end

/-- What is out of reach, and what is thrown away, is no loop. -/
theorem body_traced {ss : List Stmt} {us : List Token} (h : Parts (Stmt.Read file) ss us) :
    Traced (stmtsWithin ss) (bodySites ss) us := by
  induction h with
  | nil => exact .of_placed (.zero _ [])
  | @cons s ss us vs hfirst _ ih =>
    refine Traced.append ⟨hfirst.traced.starts, fun pos? => ?_⟩ ih
    have hignored : s.ignoredSites.count ⟨.endless, pos?⟩ = 0 := by
      cases s <;> simp [Stmt.ignoredSites]
    rw [Multiset.count_add, Multiset.count_add, hignored, hfirst.traced.endless]
    simp

/-- The statements of an item, at every depth. -/
def Item.stmts : Item → List Stmt
  | .function fn => stmtsWithin fn.body
  | .stmt s => s.within
  | .importing _ | .fault _ => []

theorem items_traced {items : List Item} {us : List Token} (h : Parts (Item.Read file) items us) :
    Traced (items.flatMap Item.stmts) (itemsSites items) us := by
  induction h with
  | nil => exact .of_placed (.zero _ [])
  | cons hfirst _ ih =>
    refine Traced.append ?_ ih
    cases hfirst with
    | importing _ => exact .of_placed (.zero _ [])
    | stmt hs => exact hs.traced
    | function hfn =>
      obtain ⟨keyword, name, _, _, hbody⟩ := hfn
      exact (body_traced hbody).sublist (.cons _ (List.sublist_cons_self ..))

theorem Reading.program_stmts (r : Reading) :
    r.program.stmts.Perm (r.items.flatMap Item.stmts) := by
  obtain ⟨items, stop?, rest⟩ := r
  induction items with
  | nil => exact .refl _
  | cons i items ih =>
    cases i with
    | importing i => exact ih
    | fault e => exact ih
    | function fn =>
      refine .trans (.of_eq (List.append_assoc ..)) ?_
      exact .append_left _ ih
    | stmt s => exact (List.perm_append_comm_assoc ..).trans (.append_left _ ih)

theorem stmts_traced_of_parse {source : String} {tokens : List Token} {p : Program}
    (h : tokenize source = .ok tokens) (hp : parse file tokens = .ok p) :
    (p.stmts.map Stmt.start?).Nodup ∧
      ∀ pos?, p.sites.count ⟨.endless, pos?⟩ = p.stmts.countP (·.endlessAt pos?) := by
  obtain ⟨us, hus, hitems, rfl⟩ := parse_read hp
  have htraced := (items_traced hitems).sublist hus
  have hperm := Reading.program_stmts (Reading.ofTokens file tokens)
  refine ⟨(hperm.map _).nodup_iff.mpr (htraced.starts.nodup (places_nodup h)), fun pos? => ?_⟩
  rw [Reading.program_sites, htraced.endless, hperm.countP_eq]

/-! ### Coming to statements -/

def Program.Comes (p : Program) (s : Stmt) : Prop := ∃ use c, p.Reaches (.stmt use s) c

/-- From a loop the check goes on to the statements of its body. -/
theorem Program.Comes.body {p : Program} {s : Stmt} {body : List Stmt} (h : p.Comes s)
    (hstep : ∀ use c, ∃ d, Fragment.Step (.stmt use s, c) (.stmts body, d)) :
    ∀ t ∈ stmtsUnlooped body, p.Comes t := by
  intro t ht
  obtain ⟨use, c, start, hstart, hreach⟩ := h
  obtain ⟨d, hbody⟩ := hstep use c
  obtain ⟨use', e, hmore, -⟩ := Fragment.reaches_unlooped (x := .stmts body) ht d
  exact ⟨use', e, start, hstart, (hreach.tail hbody).trans hmore⟩

mutual

theorem Stmt.comes_within {p : Program} : ∀ s : Stmt, (∀ t ∈ s.unlooped, p.Comes t) →
    ∀ t ∈ s.within, p.Comes t
  | .whileLoop _ body _, h => by
    have hself := h _ (Stmt.mem_unlooped_self _)
    have hbody := stmts_come_within body (hself.body fun _ _ => ⟨_, .whileBody rfl⟩)
    exact List.forall_mem_cons.mpr ⟨hself, hbody⟩
  | .forLoop _ _ body _, h => by
    have hself := h _ (Stmt.mem_unlooped_self _)
    have hbody := stmts_come_within body (hself.body fun _ _ => ⟨_, .forBody rfl⟩)
    exact List.forall_mem_cons.mpr ⟨hself, hbody⟩
  | .loop body _, h => by
    have hself := h _ (Stmt.mem_unlooped_self _)
    have hbody := stmts_come_within body (hself.body fun _ _ => ⟨_, .loopBody⟩)
    exact List.forall_mem_cons.mpr ⟨hself, hbody⟩
  | .ifElse _ thenBody none _, h => by
    rw [Stmt.unlooped, List.forall_mem_cons] at h
    exact List.forall_mem_cons.mpr ⟨h.1, stmts_come_within thenBody h.2⟩
  | .ifElse _ thenBody (some elseBody) _, h => by
    rw [Stmt.unlooped, List.forall_mem_cons, List.forall_mem_append] at h
    obtain ⟨hself, hthen, helse⟩ := h
    rw [Stmt.within, List.forall_mem_cons, List.forall_mem_append]
    exact ⟨hself, stmts_come_within thenBody hthen, stmts_come_within elseBody helse⟩
  | .letVar .., h | .assign .., h | .expr .., h | .ret none _, h | .ret (some _) _, h
  | .breakLoop _, h | .continueLoop _, h | .fn _, h | .bare _, h | .unknown, h => h

theorem stmts_come_within {p : Program} : ∀ ss : List Stmt, (∀ t ∈ stmtsUnlooped ss, p.Comes t) →
    ∀ t ∈ stmtsWithin ss, p.Comes t
  | [], _ => List.forall_mem_nil _
  | s :: rest, h => by
    rw [stmtsUnlooped, List.forall_mem_append] at h
    rw [stmtsWithin, List.forall_mem_append]
    exact ⟨s.comes_within h.1, stmts_come_within rest h.2⟩

end

/-- The check comes to every statement of a program. -/
theorem Program.comes {p : Program} : ∀ s ∈ p.stmts, p.Comes s := by
  have hunlooped : ∀ t ∈ p.unlooped, p.Comes t := by
    intro t ht
    obtain ⟨use, c, hreach, -⟩ := Program.reaches_of_unlooped ht
    exact ⟨use, c, hreach⟩
  rw [Program.unlooped, List.forall_mem_append] at hunlooped
  rw [Program.stmts, List.forall_mem_append]
  refine ⟨fun s hs => ?_, stmts_come_within _ hunlooped.2⟩
  obtain ⟨fn, hfn, hs⟩ := List.mem_flatMap.mp hs
  refine stmts_come_within fn.body (fun t ht => hunlooped.1 t ?_) s hs
  exact List.mem_flatMap.mpr ⟨fn, hfn, ht⟩

/-! ### Warnings -/

def Checker.warned (c : Checker) (code : String) (pos? : Option Position) : Nat :=
  c.warnings.countP fun w => w.code == code && w.span?.map Span.start == pos?

theorem warned_endless_le (p : Program) (pos? : Option Position) :
    (Checker.new.check p).warned "W0204" pos? ≤ p.sites.count ⟨.endless, pos?⟩ := by
  refine le_trans ?_ (Multiset.count_le_of_le _ (check_usedSites_le p))
  rw [usedSites, Multiset.coe_count, List.count_filterMap, marks, List.countP_append,
    List.countP_map (l := (Checker.new.check p).warnings)]
  refine le_trans (List.countP_mono_left fun w _ hw => ?_) (Nat.le_add_left _ _)
  obtain ⟨hcode, hpos⟩ := Bool.and_eq_true_iff.mp hw
  simp [Warning.mark, Mark.site?, eq_of_beq hcode, eq_of_beq hpos, siteKind?]

theorem Program.Comes.warned {p : Program} {body : List Stmt} {span : Span}
    (h : p.Comes (.loop body (some span))) (hexit : anyExit body = false) :
    0 < (Checker.new.check p).warned "W0204" (some span.start) := by
  obtain ⟨use, c, hreach⟩ := h
  have hrecorded : ((Fragment.stmt use (.loop body (some span))).run c).Recorded
      (Concern.loopWithoutExit.toWarning (some span)).mark := by
    simp only [Fragment.run, checkStmt, hexit]
    exact ((adds_addWarning _ _).recorded _).mpr (.inr rfl)
  rcases hreach.retains _ hrecorded with hmark | hmark
  · obtain ⟨f, -, hmark⟩ := List.mem_map.mp hmark
    cases hmark
  · obtain ⟨w, hw, hmark⟩ := List.mem_map.mp hmark
    obtain ⟨hcode, hpos, -⟩ := Mark.warning.inj hmark
    refine List.countP_pos_iff.mpr ⟨w, hw, ?_⟩
    simp [hcode, hpos, Concern.toWarning, Concern.code]

/-- **Loops are warned about exactly.**  In a program that was read from a text, there is one
warning at a loop if no `return` and no `break` stands in its body, at any depth and in whatever
loop, and none if there is such a statement. -/
theorem check_endless_loops {file source : String} {p : Program}
    (hp : readProgram file source = .ok p) {body : List Stmt} {span? : Option Span}
    (h : .loop body span? ∈ p.stmts) :
    (Checker.new.check p).warned "W0204" (span?.map Span.start) =
      if ∃ s ∈ stmtsWithin body, s.isReturn ∨ s.isBreak then 0 else 1 := by
  obtain ⟨tokens, htokens, hparse⟩ := of_readProgram_eq_ok hp
  obtain ⟨hstarts, hcount⟩ := stmts_traced_of_parse htokens hparse
  have hexit : anyExit body = true ↔ ∃ s ∈ stmtsWithin body, s.isReturn ∨ s.isBreak := by
    simp [anyExit_eq, Stmt.isExit]
  have hle := warned_endless_le p (span?.map Span.start)
  split
  · next hbody =>
    -- Another loop would have to stand at the same place.
    refine Nat.le_zero.mp (hle.trans_eq ((hcount _).trans (List.countP_eq_zero.mpr ?_)))
    intro t ht hend
    cases t with
    | loop body' span?' =>
      obtain ⟨hnone, hpos⟩ := Bool.and_eq_true_iff.mp hend
      obtain ⟨rfl, -⟩ := Stmt.loop.inj (List.inj_on_of_nodup_map hstarts ht h (eq_of_beq hpos))
      simp [hexit.mpr hbody] at hnone
    | _ => cases hend
  · next hbody =>
    refine le_antisymm (hle.trans ?_) ?_
    · exact Multiset.nodup_iff_count_le_one.mp (sites_nodup_of_parse htokens hparse) _
    · obtain ⟨use, c, hreach⟩ := Program.comes _ h
      obtain ⟨us, hread⟩ := hreach.read (Program.read_of_parse hparse)
      cases hread with
      | loop keyword _ =>
        exact Program.Comes.warned ⟨use, c, hreach⟩ (by simpa [← hexit] using hbody)

/-- A loop without an exit, around it one that another loop with a `return` stands in. -/
theorem check_endless_loops_nested :
    ∃ p, readProgram "" ("loop \x7b loop \x7b let a = 1 \x7d\n" ++
        "loop \x7b if true \x7b return \x7d \x7d \x7d") = .ok p ∧
      (Checker.new.check p).warned "W0204" (some ⟨1, 1⟩) = 0 ∧
      (Checker.new.check p).warned "W0204" (some ⟨1, 8⟩) = 1 ∧
      ∃ body span?, .loop body span? ∈ p.stmts ∧
        (Checker.new.check p).warned "W0204" (span?.map Span.start) =
          if ∃ s ∈ stmtsWithin body, s.isReturn ∨ s.isBreak then 0 else 1 := by
  refine exists_program (P := fun p => (Checker.new.check p).warned "W0204" (some ⟨1, 1⟩) = 0 ∧
      (Checker.new.check p).warned "W0204" (some ⟨1, 8⟩) = 1 ∧
      ∃ s ∈ p.stmts, s.endlessAt (some ⟨1, 8⟩)) toList_ofList_append (by decide +kernel) ?_
  rintro p hp ⟨houter, hinner, s, hs, hend⟩
  refine ⟨houter, hinner, ?_⟩
  cases s with
  | loop body span? => exact ⟨body, span?, hs, check_endless_loops hp hs⟩
  | _ => cases hend

/-- A loop that nothing leaves, and no warning: a `break` stands in it, but leaves another loop. -/
theorem check_misses_endless_loop :
    ∃ p, readProgram "" "fn f(c) \x7b loop \x7b while c \x7b break \x7d \x7d \x7d" = .ok p ∧
      ∃ body span?, .loop body span? ∈ p.stmts ∧
        (∀ s ∈ stmtsWithin body, ¬ s.isReturn) ∧ (∀ s ∈ stmtsUnlooped body, ¬ s.isBreak) ∧
        (Checker.new.check p).warned "W0204" (span?.map Span.start) = 0 := by
  refine exists_program (P := fun p => p.stmts.any fun
      | .loop body span? =>
        decide ((∀ s ∈ stmtsWithin body, ¬ s.isReturn) ∧ (∀ s ∈ stmtsUnlooped body, ¬ s.isBreak) ∧
          (Checker.new.check p).warned "W0204" (span?.map Span.start) = 0)
      | _ => false) String.toList_ofList (by decide +kernel) fun p _ hp => ?_
  obtain ⟨s, hs, hloop⟩ := List.any_eq_true.mp hp
  cases s with
  | loop body span? => exact ⟨body, span?, hs, of_decide_eq_true hloop⟩
  | _ => cases hloop

end Owl
