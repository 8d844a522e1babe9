/-
Layout never changes meaning.
-/
import Owl.Compile
import Owl.Proofs.Layout.Checking
import Owl.Proofs.Layout.Emission
import Owl.Proofs.Layout.Parsing
import Mathlib.Data.List.Forall2

namespace Owl

/-- The same code, or failures that say the same: a fault of the same wording, the same stop, the
same codes of findings, or the same fault of emission. -/
inductive SameOutcome : Except CompileFailure String → Except CompileFailure String → Prop
  | code (text : String) : SameOutcome (.ok text) (.ok text)
  | fault {e f : ParseError} (fault : e.fault = f.fault) :
      SameOutcome (.error (.parsing (.fault e))) (.error (.parsing (.fault f)))
  | stop (cause : ParseStop) :
      SameOutcome (.error (.parsing (.stop cause))) (.error (.parsing (.stop cause)))
  | rejected {findings findings' : List Finding}
      (codes : ∀ code, code ∈ findings.map Finding.code ↔ code ∈ findings'.map Finding.code) :
      SameOutcome (.error (.rejected findings)) (.error (.rejected findings'))
  | emission (fault : EmitFault) :
      SameOutcome (.error (.emission fault)) (.error (.emission fault))

def compileProgram (p : Program) : Except CompileFailure String := do
  acceptProgram p
  emitText p

theorem emitText_alike {p q : Program} (h : p.strip = q.strip) : emitText p = emitText q := by
  rw [emitText, emitText, ← Program.emit_strip p, ← Program.emit_strip q, h]

theorem check_alike (c : Checker) {p q : Program} (h : p.strip = q.strip) :
    (c.check p).Alike (c.check q) := by
  have hq := (Checker.check_strip c q).symm
  rw [← h] at hq
  exact (Checker.check_strip c p).trans hq

theorem SameOutcome.emitText (p : Program) : SameOutcome (emitText p) (emitText p) := by
  rw [Owl.emitText]
  split
  · exact .emission _
  · exact .code _

theorem compileProgram_alike {p q : Program} (h : p.strip = q.strip) :
    SameOutcome (compileProgram p) (compileProgram q) := by
  have hcodes := (check_alike .new h).codes
  rw [compileProgram, compileProgram, acceptProgram, acceptProgram, emitText_alike h]
  generalize (Checker.new.check p).findings = findings at hcodes ⊢
  generalize (Checker.new.check q).findings = findings' at hcodes ⊢
  -- no findings are no codes, so both programs are accepted or neither is
  cases findings with
  | nil =>
    cases findings' with
    | nil => exact .emitText q
    | cons f fs => simpa using hcodes f.code
  | cons f fs =>
    cases findings' with
    | nil => simpa using hcodes f.code
    | cons f' fs' => exact .rejected hcodes

theorem compile_of_tokenize {source : String} {tokens : List Token}
    (h : tokenize source = .ok tokens) :
    compile true source =
      match parse Span.unknownFile tokens with
      | .error e => .error (.parsing e)
      | .ok p => compileProgram p := by
  rw [compile, readProgram, h]
  cases hparse : parse Span.unknownFile tokens <;> simp only [hparse] <;> rfl

theorem map_strip_of_forall₂ {tokens tokens' : List Token}
    (same : List.Forall₂ (fun t u => t.kind = u.kind ∧ t.text = u.text) tokens tokens') :
    tokens.map Token.strip = tokens'.map Token.strip := by
  induction same with
  | nil => rfl
  | cons hword _ ih =>
    rw [List.map_cons, List.map_cons, ih, Token.strip, Token.strip, hword.1, hword.2]

/-- **Layout never changes meaning.**  Where two texts have tokens of the same kinds and texts, in
whatever places, compiling them gives the same outcome. -/
theorem compile_layout (source source' : String) (tokens tokens' : List Token)
    (h : tokenize source = .ok tokens) (h' : tokenize source' = .ok tokens')
    (same : List.Forall₂ (fun t u => t.kind = u.kind ∧ t.text = u.text) tokens tokens') :
    SameOutcome (compile true source) (compile true source') := by
  have hread := parse_alike Span.unknownFile (map_strip_of_forall₂ same)
  rw [compile_of_tokenize h, compile_of_tokenize h']
  generalize parse Span.unknownFile tokens = first at hread ⊢
  generalize parse Span.unknownFile tokens' = second at hread ⊢
  cases hread with
  | program hprogram => exact compileProgram_alike hprogram
  | fault herror => exact .fault (ParseError.mk.inj herror).1
  | stop => exact .stop _

/-- A rejected program, and the same on two lines with a comment between. -/
theorem compile_layout_two_lines :
    SameOutcome (compile true "let x = y + y") (compile true "let x = y + // sum\n  y") :=
  compile_layout _ _
    [⟨.kwLet, "let", ⟨1, 1⟩⟩, ⟨.ident, "x", ⟨1, 5⟩⟩, ⟨.assign, "=", ⟨1, 7⟩⟩, ⟨.ident, "y", ⟨1, 9⟩⟩,
      ⟨.plus, "+", ⟨1, 11⟩⟩, ⟨.ident, "y", ⟨1, 13⟩⟩, ⟨.eof, "", ⟨1, 14⟩⟩]
    [⟨.kwLet, "let", ⟨1, 1⟩⟩, ⟨.ident, "x", ⟨1, 5⟩⟩, ⟨.assign, "=", ⟨1, 7⟩⟩, ⟨.ident, "y", ⟨1, 9⟩⟩,
      ⟨.plus, "+", ⟨1, 11⟩⟩, ⟨.ident, "y", ⟨2, 3⟩⟩, ⟨.eof, "", ⟨2, 4⟩⟩]
    rfl rfl (by simp)

end Owl
