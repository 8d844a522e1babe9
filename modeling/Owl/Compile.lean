/-
From source text to target text.

`compile` reads a program, checks it and emits its code; the first stage that
fails decides the failure.
-/
import Owl.Check
import Owl.Code.Emit
import Owl.Token.Lexer
import Owl.Tree.Parser

namespace Owl

def version : String := "0.2.4.7-alpha"

/-- Why a text cannot be compiled. -/
inductive CompileFailure
  | lexing (e : LexError)
  | parsing (e : ParseFailure)
  | rejected (findings : List Finding)
  | emission (fault : EmitFault)

def CompileFailure.message : CompileFailure → String
  | lexing e => e.text
  | parsing (.fault e) => e.text
  | parsing (.stop cause) => cause.message
  | rejected findings => toString findings.length ++ " type error(s) found"
  | emission fault => fault.message

def readProgram (file source : String) : Except CompileFailure Program :=
  match tokenize source with
  | .error e => .error (.lexing e)
  | .ok tokens =>
    match parse file tokens with
    | .error e => .error (.parsing e)
    | .ok p => .ok p

def emitText (p : Program) : Except CompileFailure String :=
  match p.emit with
  | .error fault => .error (.emission fault)
  | .ok text => .ok text

def acceptProgram (p : Program) : Except CompileFailure Unit :=
  match (Checker.new.check p).findings with
  | [] => .ok ()
  | findings => .error (.rejected findings)

/-- Compiles a text; whether types are checked is a choice. -/
def compile (checkTypes : Bool) (source : String) : Except CompileFailure String := do
  let p ← readProgram Span.unknownFile source
  if checkTypes then acceptProgram p
  emitText p

theorem of_readProgram_eq_ok {file source : String} {p : Program}
    (h : readProgram file source = .ok p) :
    ∃ tokens, tokenize source = .ok tokens ∧ parse file tokens = .ok p := by
  rw [readProgram] at h
  split at h
  · cases h
  · next tokens htokens =>
    split at h
    · cases h
    · next hp =>
      cases h
      exact ⟨tokens, htokens, hp⟩

def readChars (file : String) (cs : List Char) : Except CompileFailure Program :=
  let lexed := Lexed.ofChars cs.length .start cs
  match lexed.error? with
  | some e => .error (.lexing e)
  | none =>
    match parse file lexed.tokens with
    | .error e => .error (.parsing e)
    | .ok p => .ok p

/-- A text that is written out is read from its characters: to find them by evaluation takes longer
than all of the reading. -/
theorem readProgram_of_toList {file source : String} {cs : List Char} (h : source.toList = cs) :
    readProgram file source = readChars file cs := by
  subst h
  rw [readProgram, tokenize, lex, readChars]
  cases (Lexed.ofChars source.toList.length .start source.toList).error? <;> rfl

theorem compile_of_toList {checkTypes : Bool} {source : String} {cs : List Char}
    (h : source.toList = cs) :
    compile checkTypes source = (do
      let p ← readChars Span.unknownFile cs
      if checkTypes then acceptProgram p
      emitText p) := by
  rw [compile, readProgram_of_toList h]

theorem toList_ofList_append {cs ds : List Char} :
    (String.ofList cs ++ String.ofList ds).toList = cs ++ ds := by
  rw [String.toList_append, String.toList_ofList, String.toList_ofList]

/-- Where the characters of a text give a program with a property that can be decided, the text is
read into a program with all that follows from the property. -/
theorem exists_program {file source : String} {cs : List Char} {P Q : Program → Prop}
    [DecidablePred P] (hchars : source.toList = cs)
    (h : (readChars file cs).toOption.any (fun p => decide (P p)) = true)
    (hQ : ∀ p, readProgram file source = .ok p → P p → Q p) :
    ∃ p, readProgram file source = .ok p ∧ Q p := by
  rw [← readProgram_of_toList hchars] at h
  cases hread : readProgram file source with
  | error e =>
    rw [hread] at h
    cases h
  | ok p =>
    rw [hread] at h
    exact ⟨p, rfl, hQ p hread (of_decide_eq_true h)⟩

/-- The same for a text that is compiled. -/
theorem exists_compiled (source : String) {cs : List Char} (P : Program → Prop) [DecidablePred P]
    (hchars : source.toList = cs)
    (h : (readChars Span.unknownFile cs).toOption.any (fun p =>
      decide ((do acceptProgram p; emitText p).toOption.isSome ∧ P p)) = true) :
    ∃ text p, compile true source = .ok text ∧ readProgram Span.unknownFile source = .ok p ∧
      P p := by
  obtain ⟨p, hread, hsome, hP⟩ := exists_program hchars h fun _ _ h => h
  cases htext : (do acceptProgram p; emitText p) with
  | error e =>
    rw [htext] at hsome
    cases hsome
  | ok text => exact ⟨text, p, by rw [compile, hread]; exact htext, hread, hP⟩

theorem exists_parsed {file source : String} {cs : List Char} {P : Program → Prop}
    {Q : List Token → Program → Prop} [DecidablePred P] (hchars : source.toList = cs)
    (h : (readChars file cs).toOption.any (fun p => decide (P p)) = true)
    (hQ : ∀ tokens p, tokenize source = .ok tokens → parse file tokens = .ok p → P p →
      Q tokens p) :
    ∃ tokens p, tokenize source = .ok tokens ∧ parse file tokens = .ok p ∧ Q tokens p := by
  obtain ⟨p, hread, hP⟩ := exists_program hchars h fun _ _ hP => hP
  obtain ⟨tokens, htokens, hp⟩ := of_readProgram_eq_ok hread
  exact ⟨tokens, p, htokens, hp, hQ tokens p htokens hp hP⟩

theorem of_emitText_eq_ok {p : Program} {text : String} (h : emitText p = .ok text) :
    p.emit = .ok text := by
  rw [emitText] at h
  split at h
  · cases h
  · next hemit =>
    cases h
    exact hemit

theorem of_acceptProgram_eq_ok {p : Program} (h : acceptProgram p = .ok ()) :
    (Checker.new.check p).findings = [] := by
  rw [acceptProgram] at h
  split at h
  · next haccepted => exact haccepted
  · cases h

/-- A text that is compiled was read, its program was accepted if it was checked, and is emitted. -/
theorem of_compile_eq_ok {checkTypes : Bool} {source text : String}
    (h : compile checkTypes source = .ok text) :
    ∃ p, readProgram Span.unknownFile source = .ok p ∧
      (checkTypes = true → (Checker.new.check p).findings = []) ∧ p.emit = .ok text := by
  rw [compile] at h
  cases hread : readProgram Span.unknownFile source with
  | error e =>
    rw [hread] at h
    cases h
  | ok p =>
    rw [hread] at h
    refine ⟨p, rfl, ?_⟩
    cases checkTypes with
    | false => exact ⟨nofun, of_emitText_eq_ok h⟩
    | true =>
      change (acceptProgram p >>= fun _ => emitText p) = .ok text at h
      cases haccept : acceptProgram p with
      | error e =>
        rw [haccept] at h
        cases h
      | ok done =>
        rw [haccept] at h
        exact ⟨fun _ => of_acceptProgram_eq_ok haccept, of_emitText_eq_ok h⟩

/-! ### Timing -/

/-- How long the stages of a compilation took. -/
structure StageTimes (α : Type) where
  lexing : α
  parsing : α
  checking : α
  emission : α
  total : α

def StageTimes.lines {α : Type} (t : StageTimes α) (shown : α → String) : List String :=
  [("Lexer:      ", t.lexing), ("Parser:     ", t.parsing), ("TypeChecker: ", t.checking),
    ("Transpiler: ", t.emission), ("TOTAL:      ", t.total)].map fun (label, time) =>
      "[PROFILE] " ++ label ++ shown time ++ "ms"

end Owl
