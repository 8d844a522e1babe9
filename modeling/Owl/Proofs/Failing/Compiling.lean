/-
How compiling fails.

A text that cannot be compiled has a fault that is reported with its place, or it
is rejected with findings, but for three kinds of text: one that ends in a string
behind a backslash, one with a numeral that has no value, and one whose program is
accepted and calls a function that every program knows with too few arguments.

* `Expr.Read.ordinary`, `Stmt.Read.ordinary` — in every tree that is read, calls are
  the only places where emission can fail.
-/
import Owl.Proofs.Derivation
import Owl.Proofs.Failing.Emission
import Owl.Proofs.Layout.Compiling
import Owl.Proofs.Recovery.Faults

namespace Owl

open Owl.Parser

/-! ### What is read -/

theorem Expr.callHazards_onlyCalls (callee : Expr) (count : Nat) :
    OnlyCalls (callee.callHazards count) := by
  cases callee with
  | name called span? =>
    intro h hmem
    exact ⟨called, count, List.mem_singleton.mp hmem⟩
  | _ => exact .nil

variable {file : String}

mutual

theorem Expr.Read.ordinary : ∀ {e : Expr} {us : List Token}, e.Read file us → e.Ordinary
  | _, _, .int .. | _, _, .float .. | _, _, .string .. | _, _, .bool .. | _, _, .name .. => .nil
  | _, _, .binary hleft _ hright => hleft.ordinary.append hright.ordinary
  | _, _, .unary _ hoperand => hoperand.ordinary
  | _, _, .call hcallee _ hargs _ =>
    hcallee.ordinary.append
      ((exprsHazards_onlyCalls hargs).append (Expr.callHazards_onlyCalls _ _))
  | _, _, .field hobject _ => hobject.ordinary
  | _, _, .propagate hoperand _ => hoperand.ordinary
  | _, _, .list _ helements _ => exprsHazards_onlyCalls helements
  | _, _, .matching _ hsubject harms => hsubject.ordinary.append (armsHazards_onlyCalls harms)

theorem exprsHazards_onlyCalls : ∀ {es : List Expr} {us : List Token},
    Parts (Expr.Read file) es us → OnlyCalls (exprsHazards es)
  | _, _, .nil => .nil
  | _, _, .cons hfirst hmore => hfirst.ordinary.append (exprsHazards_onlyCalls hmore)

theorem armsHazards_onlyCalls : ∀ {arms : List Arm} {us : List Token},
    Parts (Arm.Read file) arms us → OnlyCalls (armsHazards arms)
  | _, _, .nil => .nil
  | _, _, .cons (.mk _ _ hbody) hmore => hbody.ordinary.append (armsHazards_onlyCalls hmore)

end

mutual

theorem Stmt.Read.ordinary : ∀ {s : Stmt} {us : List Token}, s.Read file us → s.Ordinary
  | _, _, .letVar _ _ _ _ hvalue | _, _, .assign _ hvalue | _, _, .expr hvalue
  | _, _, .retValue _ hvalue => hvalue.ordinary
  | _, _, .ret _ | _, _, .breakLoop _ | _, _, .continueLoop _ => .nil
  | _, _, .whileLoop _ hvalue hbody | _, _, .forLoop _ _ hvalue hbody
  | _, _, .ifThen _ hvalue hbody => hvalue.ordinary.append (stmtsHazards_onlyCalls hbody)
  | _, _, .loop _ hbody => stmtsHazards_onlyCalls hbody
  | _, _, .ifElse _ hcondition hthen helse =>
    hcondition.ordinary.append
      ((stmtsHazards_onlyCalls hthen).append (stmtsHazards_onlyCalls helse))

theorem stmtsHazards_onlyCalls : ∀ {ss : List Stmt} {us : List Token},
    Parts (Stmt.Read file) ss us → OnlyCalls (stmtsHazards ss)
  | _, _, .nil => .nil
  | _, _, .cons hfirst hmore => hfirst.ordinary.append (stmtsHazards_onlyCalls hmore)

end

/-- A program that was read can fail to be emitted at calls only. -/
theorem parse_onlyCalls {ts : List Token} {p : Program} (h : parse file ts = .ok p) :
    OnlyCalls p.hazards := by
  have hread := Program.read_of_parse h
  obtain ⟨us, hstatements⟩ := hread.statements
  refine .append ?_ (stmtsHazards_onlyCalls hstatements)
  intro place hplace
  obtain ⟨fn, hfn, hplace⟩ := List.mem_flatMap.mp hplace
  obtain ⟨vs, keyword, name, _, _, hbody⟩ := hread.functions fn hfn
  exact stmtsHazards_onlyCalls hbody place hplace

/-! ### Compiling -/

/-- Whether a failure is reported to the user: a fault of the text with its place, or findings. -/
def CompileFailure.isReported : CompileFailure → Bool
  | lexing e => e.fault != .danglingEscape
  | parsing (.fault _) => true
  | parsing (.stop _) => false
  | rejected _ => true
  | emission _ => false

/-- Whether there is code, or a failure that is reported. -/
def isAnswered : Except CompileFailure String → Bool
  | .ok _ => true
  | .error failure => failure.isReported

/-- The failures of compiling a text that are not reported, and why they happen. -/
inductive CompileFailure.Breaks (source : String) : CompileFailure → Prop
  /-- The text ends in a string, behind a backslash. -/
  | escape {front body value : List Char} {tokens : List Token} (isBody : StringBody body value)
      (text : source.toList = front ++ '"' :: (body ++ ['\\']))
      (opens : Tiled [] front ('"' :: (body ++ ['\\'])) tokens) :
      Breaks source (.lexing ⟨.danglingEscape, .behind front⟩)
  /-- A numeral has no value. -/
  | numeral {tokens : List Token} {t : Token} {cause : ParseStop}
      (read : tokenize source = .ok tokens) (mem : t ∈ tokens) (unreadable : t.Unreadable cause) :
      Breaks source (.parsing (.stop cause))
  /-- A program without findings calls a function that every program knows, and has fewer arguments
  for it than the function has parameters. -/
  | starved {p : Program} {name : String} {count : Nat} {b : Builtin}
      (read : readProgram Span.unknownFile source = .ok p)
      (accepted : (Checker.new.check p).findings = []) (mem : .call name count ∈ p.hazards)
      (known : Builtin.find? name = some b) (few : count < b.params.length) :
      Breaks source (.emission (.missingArg count))

theorem Hazard.fault?_call_eq_some {name : String} {count : Nat} {fault : EmitFault}
    (h : (Hazard.call name count).fault? = some fault) :
    ∃ b, Builtin.find? name = some b ∧ count < b.params.length ∧ fault = .missingArg count := by
  rw [Hazard.fault?] at h
  split at h
  · next b hfind =>
    split at h
    · next hfew => exact ⟨b, hfind, hfew, (Option.some.inj h).symm⟩
    · cases h
  · cases h

theorem Hazard.fault?_call_eq_none {name : String} {count : Nat} {b : Builtin}
    (h : (Hazard.call name count).fault? = none) (hfind : Builtin.find? name = some b) :
    b.params.length ≤ count := by
  rw [Hazard.fault?, hfind] at h
  by_contra hfew
  rw [not_le] at hfew
  simp only [if_pos hfew] at h
  cases h

theorem compile_of_tokenize_error {source : String} {e : LexError} (h : tokenize source = .error e) :
    compile true source = .error (.lexing e) := by
  rw [compile, readProgram, h]
  rfl

theorem lexing_reported_or_breaks {source : String} {e : LexError}
    (h : tokenize source = .error e) :
    (CompileFailure.lexing e).isReported = true ∨ (CompileFailure.lexing e).Breaks source := by
  have htiles := Lexed.tiles_lex source
  rw [Lexed.Tiles] at htiles
  rw [tokenize] at h
  cases herror : (lex source).error? with
  | none =>
    rw [herror] at h
    cases h
  | some e' =>
    rw [herror] at h htiles
    cases h
    obtain ⟨front, rest, htext, htiled, hpos, hoffends⟩ := htiles
    obtain ⟨fault, pos⟩ := e
    -- Of the ways to offend, only one is not reported.
    cases hoffends with
    | danglingEscape isBody =>
      obtain rfl : pos = .behind front := hpos
      exact .inr (.escape isBody htext htiled)
    | _ => exact .inl rfl

theorem stop_breaks {source : String} {tokens : List Token} {cause : ParseStop}
    (h : tokenize source = .ok tokens)
    (hp : parse Span.unknownFile tokens = .error (.stop cause)) :
    (CompileFailure.parsing (.stop cause)).Breaks source := by
  obtain ⟨body, last, rfl, hlast, -⟩ := tokenize_spelled h
  have hend : (body ++ [last]).getLast? = some last := List.getLast?_concat
  have hsound := Reading.ofTokens_sound Span.unknownFile hend hlast
  have hstop : (Reading.ofTokens Span.unknownFile (body ++ [last])).stop? = some cause := by
    rw [parse, Reading.result] at hp
    split at hp
    · next hcause =>
      cases hp
      exact hcause
    · cases hp
    · cases hp
  -- The tokens of a text have their end mark, so neither their end nor the bound is passed.
  obtain ⟨t, ht, hunreadable⟩ := hsound.stops cause hstop
  exact .numeral h ht hunreadable

theorem emitText_full_or_starved {source : String} {p : Program}
    (hread : readProgram Span.unknownFile source = .ok p) (honly : OnlyCalls p.hazards)
    (haccepted : (Checker.new.check p).findings = []) :
    match emitText p with
    | .ok _ => ∀ name count b, .call name count ∈ p.hazards → Builtin.find? name = some b →
        b.params.length ≤ count
    | .error failure => failure.Breaks source := by
  have hmeets := p.emit_meets
  rw [emitText]
  cases hemit : p.emit with
  | ok text =>
    rw [hemit] at hmeets
    intro name count b hmem hfind
    exact Hazard.fault?_call_eq_none (List.findSome?_eq_none_iff.mp hmeets _ hmem) hfind
  | error fault =>
    rw [hemit] at hmeets
    -- The fault stands at one of the places, and all of them are calls.
    obtain ⟨place, hmem, hfault⟩ := List.exists_of_findSome?_eq_some hmeets
    obtain ⟨name, count, rfl⟩ := honly place hmem
    obtain ⟨b, hfind, hfew, rfl⟩ := Hazard.fault?_call_eq_some hfault
    exact .starved hread haccepted hmem hfind hfew

/-- **Compiling fails in reported ways, but for three.**  A text is compiled only if its program is
read, has no findings, and gives each function that every program knows all of its arguments.
Otherwise the failure is a fault of the text or findings, which are reported, or it is due to a
backslash that ends the text in a string, to a numeral that has no value, or to a call of a known
function with too few arguments in a program that has no findings. -/
theorem compile_fails_only (source : String) :
    match compile true source with
    | .ok _ => ∃ p, readProgram Span.unknownFile source = .ok p ∧
        (Checker.new.check p).findings = [] ∧
        ∀ name count b, .call name count ∈ p.hazards → Builtin.find? name = some b →
          b.params.length ≤ count
    | .error failure => failure.isReported = true ∨ failure.Breaks source := by
  cases h : tokenize source with
  | error e =>
    rw [compile_of_tokenize_error h]
    exact lexing_reported_or_breaks h
  | ok tokens =>
    rw [compile_of_tokenize h]
    cases hp : parse Span.unknownFile tokens with
    | error e =>
      cases e with
      | fault e => exact .inl rfl
      | stop cause => exact .inr (stop_breaks h hp)
    | ok p =>
      have hread : readProgram Span.unknownFile source = .ok p := by
        simp only [readProgram, h, hp]
      cases haccepted : (Checker.new.check p).findings with
      | cons f fs =>
        have hrejected : compileProgram p = .error (.rejected (f :: fs)) := by
          rw [compileProgram, acceptProgram, haccepted]
          rfl
        simp only [hrejected]
        exact .inl rfl
      | nil =>
        have hcompile : compileProgram p = emitText p := by
          rw [compileProgram, acceptProgram, haccepted]
          rfl
        have hemit := emitText_full_or_starved hread (parse_onlyCalls hp) haccepted
        simp only [hcompile]
        cases htext : emitText p with
        | ok text =>
          rw [htext] at hemit
          exact ⟨p, hread, haccepted, hemit⟩
        | error failure =>
          rw [htext] at hemit
          exact .inr hemit

/-- Texts that fail in each of the three ways: a string that a backslash ends, a digit that no
integer is written with, and a call that the checker lets through. -/
theorem compile_unreported :
    isAnswered (compile true "\"\\") = false ∧ isAnswered (compile true "²") = false ∧
      isAnswered (compile true "print()") = false := by
  decide +kernel

end Owl
