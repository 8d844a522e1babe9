/-
What becomes of the arguments of a call.

A call is written with the texts of its arguments between other texts, which depend on
the callee alone: those of a template for a built-in function, and parentheses and
commas for any other callee.  A template has a place for each parameter; arguments
behind these are lost, unless the check rejects the call.
-/
import Owl.Proofs.Failing.Starving
import Owl.Proofs.Visiting.Resolution

namespace Owl

open Checker CheckM EmitM Text

variable {args : List Expr} {spot : Spot} {p : Program} {codes : List String} {b : Builtin}
  {text : String}

/-! ### Woven texts -/

/-- Texts with seams around them: a seam, the first text, the next seam and so on. -/
def weave (seams : List String) : List String → String
  | [] => seams.headD ""
  | code :: codes => seams.headD "" ++ code ++ weave seams.tail codes

theorem weave_cons_head (s seam : String) (seams codes : List String) :
    weave ((s ++ seam) :: seams) codes = s ++ weave (seam :: seams) codes := by
  cases codes with
  | nil => rfl
  | cons code codes => simp [weave, String.append_assoc]

/-- The seams of a template: the texts around the places of its arguments. -/
def Piece.seams : List Piece → List String
  | [] => [""]
  | .text s :: rest => (s ++ (seams rest).headD "") :: (seams rest).tail
  | .arg _ :: rest => "" :: seams rest

theorem Piece.seams_ne_nil (template : List Piece) : Piece.seams template ≠ [] := by
  cases template with
  | nil => exact List.cons_ne_nil _ _
  | cons piece rest => cases piece <;> exact List.cons_ne_nil _ _

/-- A template that asks for the arguments from one on in their order is filled with these. -/
theorem Piece.fill_range' {template : List Piece} {start count : Nat}
    (hslots : Piece.slots template = List.range' start count) {s : String}
    (hfill : Piece.fill codes template = .ok s) :
    s = weave (Piece.seams template) ((codes.drop start).take count) := by
  induction template generalizing start count s with
  | nil =>
    cases hfill
    obtain rfl : count = 0 := by simpa [slots] using hslots.symm
    rfl
  | cons piece rest ih =>
    cases piece with
    | text t =>
      rw [fill_text] at hfill
      obtain ⟨r, hr, rfl⟩ := of_map_eq_ok hfill
      -- A text becomes the front of the first seam of the rest.
      obtain ⟨seam, seams, hseams⟩ := List.exists_cons_of_ne_nil (seams_ne_nil rest)
      rw [Piece.seams, ih hslots hr, hseams]
      exact (weave_cons_head t seam seams _).symm
    | arg index =>
      -- The next argument that is asked for is the first one from `start` on.
      cases count with
      | zero => cases hslots
      | succ count =>
        rw [slots, List.range'_succ, List.cons.injEq] at hslots
        obtain ⟨rfl, hslots⟩ := hslots
        cases hcode : codes[index]? with
        | none =>
          rw [fill, hcode] at hfill
          cases hfill
        | some code =>
          rw [fill_arg hcode] at hfill
          obtain ⟨r, hr, rfl⟩ := of_map_eq_ok hfill
          have hdrop : codes.drop index = code :: codes.drop (index + 1) := by
            obtain ⟨hlt, rfl⟩ := List.getElem?_eq_some_iff.mp hcode
            exact List.drop_eq_getElem_cons hlt
          rw [hdrop, List.take_succ_cons, ih hslots hr]
          simp [weave, Piece.seams]

/-- A template is filled with the first arguments, and has no place for others. -/
theorem Piece.fill_eq_weave (hb : b ∈ Builtin.all) {s : String}
    (hfill : Piece.fill codes b.template = .ok s) :
    s = weave (Piece.seams b.template) (codes.take b.params.length) := by
  have hslots := Builtin.slots_template b hb
  rw [List.range_eq_range'] at hslots
  exact Piece.fill_range' hslots hfill

def callSeams (callee : String) : Nat → List String
  | 0 => [callee ++ "()"]
  | count + 1 => (callee ++ "(") :: (List.replicate count ", " ++ [")"])

theorem weave_commaList (code : String) (codes : List String) :
    code ++ weave (List.replicate codes.length ", " ++ [")"]) codes =
      commaList (code :: codes) ++ ")" := by
  induction codes generalizing code with
  | nil => simp [weave, commaList]
  | cons next codes ih =>
    have hmore := ih next
    simp only [commaList, String.intercalate_cons_cons] at hmore ⊢
    rw [List.length_cons, List.replicate_succ, List.cons_append, weave, List.headD_cons,
      List.tail_cons, String.append_assoc, hmore]
    simp only [String.append_assoc]

theorem callCode_eq_weave (callee : String) (codes : List String) :
    callee ++ "(" ++ commaList codes ++ ")" = weave (callSeams callee codes.length) codes := by
  cases codes with
  | nil => simp [weave, callSeams, commaList, String.append_assoc]
  | cons code codes =>
    have hcodes := weave_commaList code codes
    rw [List.length_cons, callSeams, weave, List.headD_cons, List.tail_cons, String.append_assoc,
      ← hcodes]
    simp only [String.append_assoc]

/-! ### Calls -/

def Expr.builtin? : Expr → Option Builtin
  | .name called _ => Builtin.find? called
  | _ => none

/-- What stands around the arguments of a call, where the callee is written as `code`. -/
def Expr.seams (callee : Expr) (code : String) (count : Nat) : List String :=
  match callee.builtin? with
  | some b => Piece.seams b.template
  | none => callSeams code count

/-- For how many of the arguments of a call there is a place. -/
def Expr.room (callee : Expr) (count : Nat) : Nat :=
  match callee.builtin? with
  | some b => b.params.length
  | none => count

theorem Expr.builtin?_of_ne {callee : Expr} (h : ¬ ∃ name span?, callee = .name name span?) :
    callee.builtin? = none := by
  cases callee with
  | name name span? => exact absurd ⟨name, span?, rfl⟩ h
  | _ => rfl

/-- A call is emitted as the arguments for which there is a place, between its seams. -/
theorem emitExpr_call {callee : Expr} {span? : Option Span} {own : String} {n n' : Nat}
    (h : emitExpr (.call callee args span?) n = (.ok own, n')) :
    ∃ code m codes, emitExpr callee n = (.ok code, m) ∧ emitExprs args m = (.ok codes, n') ∧
      own = weave (callee.seams code args.length) (codes.take (callee.room args.length)) := by
  by_cases hname : ∃ name span?, callee = .name name span?
  · obtain ⟨name, nameSpan?, rfl⟩ := hname
    rw [emitExpr] at h
    obtain ⟨codes, m, hargs, h⟩ := of_bind_eq_ok h
    -- Only the arguments take numbers from the counter.
    obtain ⟨htemplate, hplain, rfl⟩ := of_namedCallCode h
    refine ⟨name, n, codes, by rw [emitExpr]; rfl, hargs, ?_⟩
    rw [Expr.seams, Expr.room, Expr.builtin?]
    cases hfind : Builtin.find? name with
    | some b => exact Piece.fill_eq_weave (Builtin.of_find? hfind).1 (htemplate b hfind)
    | none =>
      simp only [← emitExprs_length hargs, List.take_length]
      rw [hplain hfind, callCode_eq_weave]
  · rw [emitExpr_call_of_ne hname] at h
    obtain ⟨code, m, hcallee, h⟩ := of_bind_eq_ok h
    obtain ⟨codes, k, hargs, h⟩ := of_bind_eq_ok h
    cases h
    refine ⟨code, m, codes, hcallee, hargs, ?_⟩
    rw [Expr.seams, Expr.room, Expr.builtin?_of_ne hname]
    simp only [← emitExprs_length hargs, List.take_length]
    exact callCode_eq_weave code codes

/-! ### Arms around a call -/

/-- No word runs over the border between a seam and a text next to it. -/
structure CutWords (seams : List String) : Prop where
  starts : ∀ seam ∈ seams.tail, startsBlank seam = true
  shut : ∀ seam ∈ seams.dropLast, isShut seam = true

theorem isApart_weave {seam : String} (h : startsBlank seam = true) (seams codes : List String) :
    isApart (weave (seam :: seams) codes) = true := by
  cases codes with
  | nil =>
    rw [startsBlank, Bool.and_eq_true] at h
    exact h.1
  | cons code codes =>
    rw [weave, List.headD_cons, String.append_assoc]
    exact isApart_of_startsBlank h _

/-- A change that goes word by word is made in the seams and in what is between them. -/
theorem Wordwise.map_weave {f : String → String} (hf : Wordwise f) {seams : List String}
    (hcut : CutWords seams) (hlength : codes.length < seams.length) :
    f (weave seams codes) = weave (seams.map f) (codes.map f) := by
  induction codes generalizing seams with
  | nil =>
    cases seams with
    | nil => cases hlength
    | cons seam seams => rfl
  | cons code codes ih =>
    cases seams with
    | nil => cases hlength
    | cons seam seams =>
      have hless : codes.length < seams.length := Nat.lt_of_succ_lt_succ hlength
      cases seams with
      | nil => cases hless
      | cons next seams =>
        -- No word runs from the seam into the text, and none from there into the next seam.
        have hshut := hcut.shut seam (List.mem_cons_self ..)
        have hnext := hcut.starts next (List.mem_cons_self ..)
        have hmore : CutWords (next :: seams) := by
          refine ⟨fun s hs => hcut.starts s (List.mem_cons_of_mem _ hs), fun s hs => ?_⟩
          exact hcut.shut s (List.mem_cons_of_mem _ hs)
        have hrest := ih hmore hless
        simp only [weave, List.headD_cons, List.tail_cons, List.map_cons] at hrest ⊢
        rw [String.append_assoc, hf.shut_append _ _ hshut,
          hf.append_apart _ _ (isApart_weave hnext seams codes), hrest, String.append_assoc]

theorem callSeams_cut (callee : String) (count : Nat) : CutWords (callSeams callee count) := by
  cases count with
  | zero => exact ⟨List.forall_mem_nil _, List.forall_mem_nil _⟩
  | succ count =>
    have hseams : callSeams callee (count + 1) =
        ((callee ++ "(") :: List.replicate count ", ") ++ [")"] := rfl
    constructor
    · intro seam hseam
      rcases List.mem_append.mp hseam with hseam | hseam
      · rw [List.eq_of_mem_replicate hseam]
        decide
      · rw [List.mem_singleton.mp hseam]
        decide
    · intro seam hseam
      rw [hseams, List.dropLast_concat] at hseam
      rcases List.mem_cons.mp hseam with rfl | hseam
      · exact isShut_of_endsBlank callee (by decide)
      · rw [List.eq_of_mem_replicate hseam]
        decide

theorem Builtin.seams_cut (hb : b ∈ Builtin.all) : CutWords (Piece.seams b.template) := by
  have hall : ∀ b ∈ Builtin.all,
      (∀ seam ∈ (Piece.seams b.template).tail, startsBlank seam = true) ∧
        ∀ seam ∈ (Piece.seams b.template).dropLast, isShut seam = true := by decide +kernel
  exact ⟨(hall b hb).1, (hall b hb).2⟩

theorem Builtin.length_seams :
    ∀ b ∈ Builtin.all, (Piece.seams b.template).length = b.params.length + 1 := by
  decide +kernel

theorem Expr.seams_cut (callee : Expr) (code : String) (count : Nat) :
    CutWords (callee.seams code count) ∧
      (callee.seams code count).length = callee.room count + 1 := by
  rw [seams, room]
  cases hfind : callee.builtin? with
  | some b =>
    have hb : b ∈ Builtin.all := by
      cases callee with
      | name name span? => exact (Builtin.of_find? hfind).1
      | _ => cases hfind
    exact ⟨Builtin.seams_cut hb, Builtin.length_seams b hb⟩
  | none =>
    refine ⟨callSeams_cut code count, ?_⟩
    cases count <;> simp [callSeams]

/-! ### Emission of spots -/

mutual

/-- The places in an expression are among those in what it stands in. -/
theorem Expr.hazards_subset {spot : Spot} {around : List Pattern} {dropped : Bool} : ∀ e : Expr,
    spot ∈ e.spots around dropped → spot.expr.hazards ⊆ e.hazards
  | .int .., h | .float .., h | .string .., h | .bool .., h | .name .., h | .stmt _, h
  | .unknown, h => by
    obtain rfl := List.mem_singleton.mp h
    exact List.Subset.refl _
  | .binary left _ right _, h => by
    simp only [Expr.spots, List.mem_cons, List.mem_append] at h
    rcases h with rfl | h | h
    · exact List.Subset.refl _
    · exact List.subset_append_of_subset_left _ (left.hazards_subset h)
    · exact List.subset_append_of_subset_right _ (right.hazards_subset h)
  | .unary _ operand _, h | .field operand _ _, h | .propagate operand _, h => by
    simp only [Expr.spots, List.mem_cons] at h
    rcases h with rfl | h
    · exact List.Subset.refl _
    · exact operand.hazards_subset h
  | .call callee args span?, h => by
    have hcallee : spot ∈ callee.spots around dropped → spot.expr.hazards ⊆ callee.hazards :=
      callee.hazards_subset
    have hargs : ∀ {room?}, spot ∈ exprsSpots around dropped room? args →
        spot.expr.hazards ⊆ (Expr.call callee args span?).hazards := by
      intro room? hmem
      refine List.subset_append_of_subset_right _ (List.subset_append_of_subset_left _ ?_)
      exact exprsHazards_subset args hmem
    by_cases hname : ∃ name span?, callee = .name name span?
    · obtain ⟨name, nameSpan?, rfl⟩ := hname
      simp only [Expr.spots, List.mem_cons] at h
      rcases h with rfl | h
      · exact List.Subset.refl _
      · exact hargs h
    · rw [Expr.spots_call_of_ne hname, List.mem_cons, List.mem_append] at h
      rcases h with rfl | h | h
      · exact List.Subset.refl _
      · exact List.subset_append_of_subset_left _ (hcallee h)
      · exact hargs h
  | .list elements _, h => by
    simp only [Expr.spots, List.mem_cons] at h
    rcases h with rfl | h
    · exact List.Subset.refl _
    · exact exprsHazards_subset elements h
  | .matching subject arms _, h => by
    simp only [Expr.spots, List.mem_cons, List.mem_append] at h
    rcases h with rfl | h | h
    · exact List.Subset.refl _
    · exact List.subset_append_of_subset_left _ (subject.hazards_subset h)
    · exact List.subset_append_of_subset_right _ (armsHazards_subset arms h)

theorem exprsHazards_subset {spot : Spot} {around : List Pattern} {dropped : Bool}
    {room? : Option Nat} : ∀ es : List Expr, spot ∈ exprsSpots around dropped room? es →
    spot.expr.hazards ⊆ exprsHazards es
  | [], h => nomatch h
  | e :: es, h => by
    simp only [exprsSpots, List.mem_append] at h
    rcases h with h | h
    · exact List.subset_append_of_subset_left _ (e.hazards_subset h)
    · exact List.subset_append_of_subset_right _ (exprsHazards_subset es h)

theorem armsHazards_subset {spot : Spot} {around : List Pattern} {dropped : Bool} :
    ∀ arms : List Arm, spot ∈ armsSpots around dropped arms →
    spot.expr.hazards ⊆ armsHazards arms
  | [], h => nomatch h
  | ⟨_, body, _⟩ :: arms, h => by
    simp only [armsSpots, List.mem_append] at h
    rcases h with h | h
    · exact List.subset_append_of_subset_left _ (body.hazards_subset h)
    · exact List.subset_append_of_subset_right _ (armsHazards_subset arms h)

end

mutual

theorem Stmt.hazards_subset {spot : Spot} : ∀ s : Stmt, spot ∈ s.spots →
    spot.expr.hazards ⊆ s.hazards
  | .letVar _ value _ _ _, h | .assign _ value _, h | .expr value _, h
  | .ret (some value) _, h => by
    simp only [Stmt.spots] at h
    exact value.hazards_subset h
  | .whileLoop value body _, h | .forLoop _ value body _, h | .ifElse value body none _, h => by
    simp only [Stmt.spots, List.mem_append] at h
    rcases h with h | h
    · exact List.subset_append_of_subset_left _ (value.hazards_subset h)
    · exact List.subset_append_of_subset_right _ (stmtsHazards_subset body h)
  | .loop body _, h => by
    simp only [Stmt.spots] at h
    exact stmtsHazards_subset body h
  | .ifElse condition thenBody (some elseBody) _, h => by
    simp only [Stmt.spots, List.mem_append] at h
    rcases h with h | h | h
    · exact List.subset_append_of_subset_left _ (condition.hazards_subset h)
    · refine List.subset_append_of_subset_right _ (List.subset_append_of_subset_left _ ?_)
      exact stmtsHazards_subset thenBody h
    · refine List.subset_append_of_subset_right _ (List.subset_append_of_subset_right _ ?_)
      exact stmtsHazards_subset elseBody h
  | .ret none _, h | .breakLoop _, h | .continueLoop _, h | .fn _, h | .bare _, h
  | .unknown, h => by simp at h

theorem stmtsHazards_subset {spot : Spot} : ∀ ss : List Stmt, spot ∈ stmtsSpots ss →
    spot.expr.hazards ⊆ stmtsHazards ss
  | [], h => nomatch h
  | s :: rest, h => by
    simp only [stmtsSpots, List.mem_append] at h
    rcases h with h | h
    · exact List.subset_append_of_subset_left _ (s.hazards_subset h)
    · exact List.subset_append_of_subset_right _ (stmtsHazards_subset rest h)

end

theorem Program.hazards_subset (h : spot ∈ p.spots) : spot.expr.hazards ⊆ p.hazards := by
  rw [hazards]
  rcases List.mem_append.mp h with h | h
  · obtain ⟨fn, hfn, hspot⟩ := List.mem_flatMap.mp h
    refine List.subset_append_of_subset_left _ fun place hplace => ?_
    exact List.mem_flatMap.mpr ⟨fn, hfn, stmtsHazards_subset fn.body hspot hplace⟩
  · exact List.subset_append_of_subset_right _ (stmtsHazards_subset p.statements h)

/-- Where a program is emitted, each of its expressions is emitted from every counter on. -/
theorem Program.emitExpr_of_spot (hemit : p.emit = .ok text) (h : spot ∈ p.spots) (n : Nat) :
    ∃ own n', emitExpr spot.expr n = (.ok own, n') := by
  have hmeets := p.emit_meets
  rw [hemit] at hmeets
  have hnone : firstFault? spot.expr.hazards = none := by
    rw [firstFault?, List.findSome?_eq_none_iff] at hmeets ⊢
    exact fun place hplace => hmeets place (Program.hazards_subset h hplace)
  have hexpr := (emitExpr_meets spot.expr n).1
  rw [← map_hazard_flat spot.expr.hazards, firstFault?_hazards, Option.map_eq_none_iff] at hnone
  rw [hnone] at hexpr
  rcases hrun : emitExpr spot.expr n with ⟨outcome, n'⟩
  rw [hrun] at hexpr
  cases outcome with
  | ok own => exact ⟨own, n', rfl⟩
  | error failure => cases hexpr

/-! ### Calls that a check lets through -/

/-- A call of a built-in function has more arguments than there are places for.  The check lets it
through because it takes any number of arguments for a parameter of any type, which is that of
`print`; because the program declares a function of the same name; or because it does not look at
the call. -/
structure Spot.Overfills (p : Program) (spot : Spot) (callee : Expr) (b : Builtin) (count : Nat) :
    Prop where
  known : callee.builtin? = some b
  full : b.params.length < count
  cause : b.name = "print" ∧ p.declared? b.name = none ∨
    b.isGeneric = false ∧ (p.declared? b.name).isSome = true ∨
      ∃ e c, p.Visits e c ∧ e.LeavesOut spot

theorem Builtin.of_params_eq_any : ∀ b ∈ Builtin.all, b.params = [.any] → b.name = "print" := by
  decide +kernel

theorem Builtin.params_of_isGeneric :
    ∀ b ∈ Builtin.all, ValueConstructor.find? b.name = none ∧
      b.isGeneric = (b.name == "get" || b.name == "push") ∧
      (b.isGeneric = true → b.params.length = 2) := by
  decide +kernel

/-- The number of arguments of a call that a check comes to and lets through. -/
theorem Program.Visits.count (hnil : (Checker.new.check p).findings = []) (hb : b ∈ Builtin.all)
    {nameSpan? : Option Span} {span? : Option Span} {c : Checker}
    (h : p.Visits (.call (.name b.name nameSpan?) args span?) c)
    (hfind : Builtin.find? b.name = some b) :
    args.length = b.params.length ∨ b.name = "print" ∧ p.declared? b.name = none ∨
      b.isGeneric = false ∧ (p.declared? b.name).isSome = true := by
  obtain ⟨hconstructor, hgeneric, htwo⟩ := Builtin.params_of_isGeneric b hb
  have hfound := h.findings hnil
  simp only [checkExpr] at hfound
  obtain ⟨hseen, hargs⟩ := argsState?_of_findings (checkExprs_keeps args) hfound
  rw [List.length_map, argsState?, hconstructor, if_neg (by simp), ← hgeneric] at hseen
  by_cases hisGeneric : b.isGeneric = true
  · rw [if_pos hisGeneric] at hseen
    split at hseen
    · next hcount => exact .inl ((eq_of_beq hcount).trans (htwo hisGeneric).symm)
    · cases hseen
  · rw [if_neg hisGeneric] at hseen
    rw [Bool.not_eq_true] at hisGeneric
    cases hdeclared : p.declared? b.name with
    | some f => exact .inr (.inr ⟨hisGeneric, rfl⟩)
    | none =>
      -- The name stands for the built-in function, whose parameters count.
      have hfn : c.env.fn? b.name = some b.signature := by
        rw [h.fn?, p.root_fn?, hdeclared, hfind]
        rfl
      simp only [hfn, Builtin.signature] at hseen
      by_cases hany : b.params = [.any]
      · exact .inr (.inl ⟨Builtin.of_params_eq_any b hb hany, rfl⟩)
      · by_contra hother
        rw [not_or] at hother
        have hwrong : (b.params != [.any] && args.length != b.params.length) = true := by
          rw [Bool.and_eq_true, bne_iff_ne, bne_iff_ne]
          exact ⟨hany, hother.1⟩
        -- The arguments would be looked at in a state with a report.
        rw [if_pos hwrong] at hseen
        have hclean := (checkExprs_keeps args _).findings hargs
        rw [← Option.some.inj hseen] at hclean
        exact absurd hclean (Checker.findings_addDiagnostic_ne_nil _ _)

/-- Every call of a program without findings has a place for each of its arguments, or overfills. -/
theorem Program.room_or_overfills (hnil : (Checker.new.check p).findings = [])
    (h : spot ∈ p.spots) {callee : Expr} {span? : Option Span}
    (hcall : spot.expr = .call callee args span?) :
    args.length ≤ callee.room args.length ∨ ∃ b, spot.Overfills p callee b args.length := by
  cases hbuiltin : callee.builtin? with
  | none =>
    rw [Expr.room, hbuiltin]
    exact .inl (Nat.le_refl _)
  | some b =>
    by_cases hfull : b.params.length < args.length
    · refine .inr ⟨b, hbuiltin, hfull, ?_⟩
      cases callee with
      | name called nameSpan? =>
        obtain ⟨hb, rfl⟩ := Builtin.of_find? hbuiltin
        obtain ⟨e, c, hvisits, rfl | hout⟩ := Program.visits_spots hnil h
        · rw [hcall] at hvisits
          rcases hvisits.count hnil hb hbuiltin with hcount | hcause
          · omega
          · exact hcause.imp_right .inl
        · exact .inr (.inr ⟨e, c, hvisits, hout⟩)
      | _ => cases hbuiltin
    · rw [Expr.room, hbuiltin]
      exact .inl (Nat.not_lt.mp hfull)

/-! ### Compiled texts -/

/-- A call stands at a spot of a program with a text, and is written with the first `kept` of its
arguments, each of them once and in their order.  Its text is that of the arguments between seams;
unless the call itself is lost with an argument, it stands in the text of the program, where the
patterns around it are bound in the arguments and in the seams. -/
structure Spot.Writes (text : String) (spot : Spot) (callee : Expr) (args : List Expr)
    (kept : Nat) : Prop where
  emitted : ∀ n, ∃ code m codes n', emitExpr callee n = (.ok code, m) ∧
    emitExprs args m = (.ok codes, n') ∧
    emitExpr spot.expr n = (.ok (weave (callee.seams code args.length) (codes.take kept)), n')
  placed : spot.dropped = false →
    ∃ (binds : List (Pattern × Nat)) (code : String) (codes : List String) (n m n' : Nat),
      binds.map Prod.fst = spot.around ∧ emitExpr callee n = (.ok code, m) ∧
      emitExprs args m = (.ok codes, n') ∧
      StandsIn (weave ((callee.seams code args.length).map (rebind binds))
        ((codes.take kept).map (rebind binds))) text

theorem Spot.Writes.of_room {callee : Expr} {span? : Option Span}
    (hcall : spot.expr = .call callee args span?)
    (hemitted : ∀ n, ∃ own n', emitExpr spot.expr n = (.ok own, n'))
    (hshown : spot.dropped = false → Shown [] spot text) :
    spot.Writes text callee args (callee.room args.length) := by
  constructor
  · intro n
    obtain ⟨own, n', hown⟩ := hemitted n
    rw [hcall] at hown ⊢
    obtain ⟨code, m, codes, hcallee, hargs, rfl⟩ := emitExpr_call hown
    exact ⟨code, m, codes, n', hcallee, hargs, hown⟩
  · intro hkept
    obtain ⟨binds, own, haround, hbinds, -, ⟨n, n', hown⟩, hstands⟩ := hshown hkept
    rw [List.append_nil] at haround
    rw [hcall] at hown
    obtain ⟨code, m, codes, hcallee, hargs, rfl⟩ := emitExpr_call hown
    obtain ⟨hcut, hlength⟩ := callee.seams_cut code args.length
    have hroom : (codes.take (callee.room args.length)).length <
        (callee.seams code args.length).length := by
      rw [hlength, List.length_take]
      omega
    rw [(rebind_wordwise hbinds).map_weave hcut hroom] at hstands
    exact ⟨binds, code, codes, n, m, n', haround.symm, hcallee, hargs, hstands⟩

/-- All arguments are kept where there is a place for each. -/
theorem Spot.Writes.all {callee : Expr} {kept : Nat} (h : spot.Writes text callee args kept)
    (hkept : args.length ≤ kept) : spot.Writes text callee args args.length := by
  have htake : ∀ {codes : List String} {m n' : Nat}, emitExprs args m = (.ok codes, n') →
      codes.take kept = codes.take args.length := by
    intro codes m n' hargs
    rw [← emitExprs_length hargs] at hkept ⊢
    rw [List.take_length, List.take_of_length_le hkept]
  constructor
  · intro n
    obtain ⟨code, m, codes, n', hcallee, hargs, hown⟩ := h.emitted n
    rw [htake hargs] at hown
    exact ⟨code, m, codes, n', hcallee, hargs, hown⟩
  · intro hplace
    obtain ⟨binds, code, codes, n, m, n', haround, hcallee, hargs, hstands⟩ := h.placed hplace
    rw [htake hargs] at hstands
    exact ⟨binds, code, codes, n, m, n', haround, hcallee, hargs, hstands⟩

/-- **No argument is lost but by overfilled templates.**  In a compiled text, a call is written with
all of its arguments, each once and in source order, or it overfills the template of a built-in
function, and is written with the first arguments, for which there are places. -/
theorem compile_keeps_arguments {source text : String} (h : compile true source = .ok text) :
    ∃ p, readProgram Span.unknownFile source = .ok p ∧
      ∀ spot ∈ p.spots, ∀ callee args span?, spot.expr = .call callee args span? →
        spot.Writes text callee args args.length ∨
          ∃ b, spot.Overfills p callee b args.length ∧
            spot.Writes text callee args b.params.length := by
  obtain ⟨p, hread, haccepted, hemit⟩ := of_compile_eq_ok h
  obtain ⟨file, n, hrun, hfile⟩ := Program.of_emit_eq_ok hemit
  obtain ⟨gs, hlaid, -⟩ := emitProgram_laid hrun
  obtain ⟨tokens, htokens, hparse⟩ := of_readProgram_eq_ok hread
  obtain ⟨hfunctions, hstatements⟩ := parse_formed htokens hparse
  refine ⟨p, hread, fun spot hspot callee args span? hcall => ?_⟩
  have hwrites : spot.Writes text callee args (callee.room args.length) := by
    refine .of_room hcall (Program.emitExpr_of_spot hemit hspot) fun hkept => ?_
    have hplain : spot.expr.isQuestion = false := by
      rw [hcall]
      rfl
    rw [hfile]
    exact hlaid.shown hfunctions hstatements hspot hkept hplain 0
  rcases Program.room_or_overfills (haccepted rfl) hspot hcall with hroom | ⟨b, hover⟩
  · exact .inl (hwrites.all hroom)
  · refine .inr ⟨b, hover, ?_⟩
    rwa [Expr.room, hover.known] at hwrites

/-- Calls in an arm, one of them the argument of another one, and a call that loses an argument. -/
theorem compile_keeps_nested_arguments :
    ∃ (source text : String) (p : Program),
      "let y = match Some(2) \x7b Some(x) => get([x], len([x, 1])), None => 0 \x7d\n" ++
        "print(y, 1)" = source ∧
      compile true source = .ok text ∧ readProgram Span.unknownFile source = .ok p ∧
      p.spots.filterMap (·.expr.calledName?) = ["Some", "get", "len", "print"] ∧
      ∀ spot ∈ p.spots, ∀ callee args span?, spot.expr = .call callee args span? →
        spot.Writes text callee args args.length ∨
          ∃ b, spot.Overfills p callee b args.length ∧
            spot.Writes text callee args b.params.length := by
  obtain ⟨text, p, h, hread, hcalls⟩ := exists_compiled
    ("let y = match Some(2) \x7b Some(x) => get([x], len([x, 1])), None => 0 \x7d\n" ++
      "print(y, 1)")
    (fun p => p.spots.filterMap (·.expr.calledName?) = ["Some", "get", "len", "print"])
    toList_ofList_append (by decide +kernel)
  obtain ⟨p', hread', hwrites⟩ := compile_keeps_arguments h
  obtain rfl := Except.ok.inj (hread.symm.trans hread')
  exact ⟨_, text, p, rfl, h, hread, hcalls, hwrites⟩

/-- Compiled texts in which a call has lost its second argument: `print` takes any number of them in
the check; a function that the program declares has the name of a built-in one; and a callee that is
itself a call is not checked. -/
theorem compile_loses_argument :
    (compile true "print(1, 2)").toOption = some "print(1)" ∧
      (compile true
        "fn is_empty(a, b) -> Int \x7b return a \x7d\nlet x = is_empty(1, 2)").toOption =
        some "def is_empty(a, b):\n    return a\n\nx = len(1) == 0" ∧
      (compile true "let x = len([1], 2)()").toOption = some "x = len([1])()" := by
  refine ⟨?_, ?_, ?_⟩
  · rw [compile_of_toList String.toList_ofList]
    decide +kernel
  · rw [compile_of_toList String.toList_ofList]
    decide +kernel
  · rw [compile_of_toList String.toList_ofList]
    decide +kernel

end Owl
