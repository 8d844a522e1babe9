/-
What the commands that compile leave behind.

`compile` writes the code of a source text to a file, and `run` hands it to the
interpreter.  Both read and check the program themselves before they emit it, and
each may end at any of these steps.

* `FileTree.read_write`, `FileTree.entry?_write` — what is written can be read, and
  nothing else changes.
-/
import Owl.Cli
import Owl.Proofs.Failing.Compiling

namespace Owl.Cli

/-! ### Writing a file -/

namespace FileTree

variable {t t' : FileTree} {place : List String}

theorem entry?_of_ne_nil (t : FileTree) (h : place ≠ []) :
    t.entry? place = (t.entries.find? (·.1 == place)).map Prod.snd :=
  if_neg (by simpa using h)

/-- Putting an entry at a place changes what is there and nothing else. -/
theorem entry?_put (t : FileTree) (hplace : place ≠ []) (e : Entry) (other : List String) :
    entry? (t.put place e) other = if other = place then some e else t.entry? other := by
  by_cases hroot : other = []
  · subst hroot
    rw [if_neg (Ne.symm hplace)]
    rfl
  rw [entry?_of_ne_nil _ hroot, entry?_of_ne_nil _ hroot, put]
  split
  · next hsome =>
    -- The row of the place is changed where it stands, and all rows keep their places.
    have hrow : (fun row : List String × Entry => (if row.1 == place then (row.1, e)
        else (row.1, row.2)).1 == other) = fun row => row.1 == other := by
      funext row
      split <;> rfl
    rw [List.find?_map]
    simp only [Function.comp_def, hrow]
    by_cases hother : other = place
    · subst hother
      obtain ⟨row, hfound⟩ := Option.isSome_iff_exists.mp hsome
      have hkey := List.find?_some hfound
      rw [hfound, if_pos rfl, Option.map_some, Option.map_some, if_pos hkey]
    · rw [if_neg hother]
      cases hfound : t.entries.find? (·.1 == other) with
      | none => rfl
      | some row =>
        have hkey : row.1 = other := by simpa using List.find?_some hfound
        rw [Option.map_some, Option.map_some, if_neg (by simpa [hkey] using hother),
          Option.map_some]
  · next hnone =>
    rw [List.find?_append]
    by_cases hother : other = place
    · subst hother
      rw [Option.not_isSome_iff_eq_none.mp hnone, if_pos rfl]
      simp
    · rw [if_neg hother, List.find?_cons_of_neg (by simpa using Ne.symm hother), List.find?_nil,
        Option.or_none]

/-- A step is taken from a directory, so it is taken all the same when another place becomes a
file. -/
theorem step_put (hdir : t.entry? place ≠ some .dir) (bytes : List UInt8) {q next : List String}
    {name : String} (h : t.step q name = .ok next) :
    (t.put place (.file bytes)).step q name = .ok next := by
  have hplace : place ≠ [] := by
    rintro rfl
    exact hdir rfl
  have hne : q ≠ place := by
    rintro rfl
    rw [step] at h
    split at h
    · cases h
    · cases h
    · next hentry => exact hdir hentry
  rw [step, entry?_put t hplace, if_neg hne]
  exact h

theorem foldlM_step_put (hdir : t.entry? place ≠ some .dir) (bytes : List UInt8)
    {names start last : List String} (h : names.foldlM t.step start = .ok last) :
    names.foldlM (t.put place (.file bytes)).step start = .ok last := by
  induction names generalizing start with
  | nil => exact h
  | cons name names ih =>
    rw [List.foldlM_cons] at h ⊢
    cases hfirst : t.step start name with
    | error fault =>
      rw [hfirst] at h
      cases h
    | ok next =>
      rw [hfirst] at h
      rw [step_put hdir bytes hfirst]
      exact ih h

/-- A path that leads to a place goes through directories, so it leads there all the same when the
place becomes a file. -/
theorem locate_put {p : Path} (h : t.locate p = .ok place) (hdir : t.entry? place ≠ some .dir)
    (bytes : List UInt8) : (t.put place (.file bytes)).locate p = .ok place := by
  have hworking : (t.put place (.file bytes)).working = t.working := by
    rw [put]
    split <;> rfl
  rw [locate] at h ⊢
  split at h
  · cases h
  · next hnull =>
    rw [if_neg hnull, hworking]
    exact foldlM_step_put hdir bytes h

def Writable (t : FileTree) (p : Path) : Prop :=
  ∃ place, t.locate p = .ok place ∧ t.entry? place ≠ some .dir

theorem Writable.exists_write {p : Path} (h : t.Writable p) (bytes : List UInt8) :
    ∃ t', t.write p bytes = .ok t' := by
  obtain ⟨place, hlocate, hdir⟩ := h
  refine ⟨t.put place (.file bytes), ?_⟩
  simp only [write, hlocate, bind, Except.bind]
  rfl

theorem of_write_eq_ok {p : Path} {bytes : List UInt8} (h : t.write p bytes = .ok t') :
    ∃ place, t.locate p = .ok place ∧ t.entry? place ≠ some .dir ∧
      t' = t.put place (.file bytes) := by
  cases hlocate : t.locate p with
  | error fault =>
    simp only [write, hlocate, bind, Except.bind] at h
    cases h
  | ok place =>
    refine ⟨place, rfl, ?_⟩
    simp only [write, hlocate, bind, Except.bind] at h
    split at h
    · cases h
    · next hdir =>
      cases h
      exact ⟨hdir, rfl⟩

theorem read_write {p : Path} {bytes : List UInt8} (h : t.write p bytes = .ok t') :
    t'.read p = .ok bytes := by
  obtain ⟨place, hlocate, hdir, rfl⟩ := of_write_eq_ok h
  have hplace : place ≠ [] := by
    rintro rfl
    exact hdir rfl
  have hentry : entry? (t.put place (.file bytes)) place = some (.file bytes) := by
    rw [entry?_put t hplace, if_pos rfl]
  simp only [read, find, locate_put hlocate hdir, bind, Except.bind, hentry]
  rfl

theorem entry?_write {p : Path} {bytes : List UInt8} (h : t.write p bytes = .ok t')
    (hplace : t.locate p ≠ .ok place) : t'.entry? place = t.entry? place := by
  obtain ⟨written, hlocate, hdir, rfl⟩ := of_write_eq_ok h
  have hwritten : written ≠ [] := by
    rintro rfl
    exact hdir rfl
  rw [entry?_put t hwritten, if_neg]
  rintro rfl
  exact hplace hlocate

end FileTree

/-! ### Steps of a command -/

section Steps

variable {α β : Type} {x : CliM α} {f : α → CliM β} {s s' : Session}

theorem CliM.bind_of_ok {a : α} (h : x s = (.ok a, s')) : (x >>= f) s = f a s' := by
  show (ExceptT.bindCont f : _ → StateM Session _) (x s).1 (x s).2 = f a s'
  rw [h]
  rfl

theorem CliM.bind_of_error {halt : Halt} (h : x s = (.error halt, s')) :
    (x >>= f) s = (.error halt, s') := by
  show (ExceptT.bindCont f : _ → StateM Session _) (x s).1 (x s).2 = (.error halt, s')
  rw [h]
  rfl

end Steps

variable {file text : String} {files : FileTree}

theorem of_readText_eq_ok {t : FileTree} {p : Path} (h : readText t p = .ok text) :
    ∃ bytes, t.read p = .ok bytes := by
  rw [readText] at h
  split at h
  · cases h
  · next bytes hbytes => exact ⟨bytes, hbytes⟩

theorem has_of_read {t : FileTree} {p : Path} {bytes : List UInt8} (h : t.read p = .ok bytes) :
    t.has p = .ok true := by
  rw [FileTree.has]
  cases hfind : t.find p with
  | ok e => rfl
  | error fault =>
    simp only [FileTree.read, hfind, bind, Except.bind] at h
    cases h

theorem isThere_run {p : Path} (h : files.has p = .ok true) :
    CliM.isThere p { files } = (.ok true, { files }) := by
  show CliM.orLeave ((files.has p).mapError _) { files } = _
  rw [h]
  rfl

theorem needFile_run (h : readText files (Path.ofText file) = .ok text) :
    CliM.needFile file { files } = (.ok (Path.ofText file), { files }) := by
  obtain ⟨bytes, hbytes⟩ := of_readText_eq_ok h
  rw [CliM.needFile, CliM.bind_of_ok (isThere_run (has_of_read hbytes))]
  rfl

theorem source_run {p : Path} (h : readText files p = .ok text) :
    CliM.source p { files } = (.ok text, { files }) := by
  show CliM.orLeave (readText files p) { files } = _
  rw [h]
  rfl

/-! ### Reading and checking a program -/

/-- How a command judges a source text, beside what the compiler makes of it. -/
inductive Judged (text : String) (s : Session) : Except Halt (Option Program) × Session → Prop
  /-- The program has no findings, and the compiler goes on to emit it. -/
  | accepted {p : Program} (hcompile : compile true text = emitText p) :
      Judged text s (.ok (some p), s)
  /-- A failure is told. -/
  | told {failure : CompileFailure} (lines : List String)
      (hcompile : compile true text = .error failure) (hreported : failure.isReported = true) :
      Judged text s (.ok none, { s with stderr := s.stderr ++ lines })
  /-- A fault leaves the command. -/
  | left {failure : CompileFailure} (f : Fault) (hcompile : compile true text = .error failure)
      (hreported : failure.isReported = false) : Judged text s (.error (.fault f), s)

/-- A command judges a text as the compiler does. -/
theorem acceptedProgram?_judged (file mistakeLine rejectionLine text : String) (s : Session) :
    Judged text s (acceptedProgram? file mistakeLine rejectionLine text s) := by
  rw [acceptedProgram?]
  cases htokens : tokenize text with
  | error e =>
    have hcompile := compile_of_tokenize_error htokens
    obtain ⟨fault, pos⟩ := e
    cases fault with
    | danglingEscape =>
      simp only [readSource, htokens]
      exact .left _ hcompile rfl
    | _ =>
      simp only [readSource, htokens]
      exact .told _ hcompile rfl
  | ok tokens =>
    have hcompile := compile_of_tokenize htokens
    cases hp : parse Span.unknownFile tokens with
    | error e =>
      rw [hp] at hcompile
      cases e with
      | fault e =>
        simp only [readSource, htokens, hp]
        exact .told _ hcompile rfl
      | stop cause =>
        simp only [readSource, htokens, hp]
        exact .left _ hcompile rfl
    | ok p =>
      rw [hp] at hcompile
      simp only [readSource, htokens, hp]
      cases hfindings : (Checker.new.check p).findings with
      | nil =>
        refine .accepted (hcompile.trans ?_)
        simp only [compileProgram, acceptProgram, hfindings]
        rfl
      | cons f fs =>
        have hrejected : compile true text = .error (.rejected (f :: fs)) := by
          rw [hcompile]
          simp only [compileProgram, acceptProgram, hfindings]
          rfl
        exact .told _ hrejected rfl

theorem emitSource_of_ok {p : Program} {code : String} (h : emitText p = .ok code) (host : Host)
    (profile : Bool) (s : Session) :
    ∃ stdout, emitSource host profile p s = (.ok code, { s with stdout }) := by
  rw [emitSource, of_emitText_eq_ok h]
  cases profile with
  | false => exact ⟨s.stdout, rfl⟩
  | true => exact ⟨s.stdout ++ host.times.lines id, rfl⟩

/-- Emission fails with a fault that leaves the command, and is not told by the compiler either. -/
theorem emitSource_of_error {p : Program} {failure : CompileFailure}
    (h : emitText p = .error failure) (host : Host) (profile : Bool) (s : Session) :
    failure.isReported = false ∧
      ∃ f, emitSource host profile p s = (.error (.fault f), s) := by
  rw [emitText] at h
  rw [emitSource]
  split at h
  · next fault hemit =>
    cases h
    rw [hemit]
    exact ⟨rfl, .emission fault, rfl⟩
  · cases h

theorem acceptedProgram?_of_ok {code : String} (hcompile : compile true text = .ok code)
    (file mistakeLine rejectionLine : String) (s : Session) :
    ∃ p, emitText p = .ok code ∧
      acceptedProgram? file mistakeLine rejectionLine text s = (.ok (some p), s) := by
  generalize hrun : acceptedProgram? file mistakeLine rejectionLine text s = judged
  cases hrun ▸ acceptedProgram?_judged file mistakeLine rejectionLine text s with
  | @accepted p haccepted => exact ⟨p, haccepted.symm.trans hcompile, rfl⟩
  | told _ herror => cases hcompile.symm.trans herror
  | left _ herror => cases hcompile.symm.trans herror

/-- A command whose text cannot be compiled ends as the failure asks, whatever it would do with
code. -/
theorem ends_of_error {failure : CompileFailure} (hcompile : compile true text = .error failure)
    (file mistakeLine rejectionLine : String) (host : Host) (profile : Bool) (s : Session) :
    (failure.isReported = true ∧ ∃ stderr,
      acceptedProgram? file mistakeLine rejectionLine text s = (.ok none, { s with stderr })) ∨
    (failure.isReported = false ∧ ∃ f,
      acceptedProgram? file mistakeLine rejectionLine text s = (.error (.fault f), s)) ∨
    (failure.isReported = false ∧ ∃ p,
      acceptedProgram? file mistakeLine rejectionLine text s = (.ok (some p), s) ∧
      ∀ s', ∃ f, emitSource host profile p s' = (.error (.fault f), s')) := by
  generalize hrun : acceptedProgram? file mistakeLine rejectionLine text s = judged
  cases hrun ▸ acceptedProgram?_judged file mistakeLine rejectionLine text s with
  | @accepted p haccepted =>
    have hemit := emitSource_of_error (haccepted.symm.trans hcompile) host profile
    exact .inr (.inr ⟨(hemit s).1, p, rfl, fun s' => (hemit s').2⟩)
  | told lines herror hreported =>
    cases hcompile.symm.trans herror
    exact .inl ⟨hreported, _, rfl⟩
  | left f herror hreported =>
    cases hcompile.symm.trans herror
    exact .inr (.inl ⟨hreported, f, rfl⟩)

/-! ### The commands -/

/-- How a command ends that could not compile a text: a failure that is reported is told, and any
other one leaves the command. -/
def Ending.Follows (failure : CompileFailure) (ending : Ending) : Prop :=
  if failure.isReported then ending = .exit 1 else ∃ f, ending = .fault f

section Commands

variable {output : Path} {output? : Option String} {code : String}
  {failure : CompileFailure}

theorem Ending.Follows.told (h : failure.isReported = true) : Follows failure (.exit 1) := by
  rw [Follows, if_pos h]

theorem Ending.Follows.left (h : failure.isReported = false) (f : Fault) :
    Follows failure (.fault f) := by
  rw [Follows, h]
  exact ⟨f, rfl⟩

theorem Ending.Follows.ne_zero {ending : Ending} (h : ending.Follows failure) :
    ending ≠ .exit 0 := by
  rw [Follows] at h
  split at h
  · rw [h]
    decide
  · obtain ⟨f, rfl⟩ := h
    exact nofun

variable (host : Host) (profile : Bool)

/-- What a command has done, but for what it printed. -/
def Outcome.Leaves (o : Outcome) (files : FileTree) (executed : List String) : Prop :=
  o.session.files = files ∧ o.session.executed = executed

theorem execute_compile_of_ok (hread : readText files (Path.ofText file) = .ok text)
    (houtput : outputPath (Path.ofText file) output? = pure output) {files' : FileTree}
    (hwrite : files.write output (Text.encode code) = .ok files')
    (hcompile : compile true text = .ok code) :
    ((Command.compile file output? profile).execute host files).ending = .exit 0 ∧
      ((Command.compile file output? profile).execute host files).Leaves files' [] := by
  obtain ⟨p, hp, haccepted⟩ := acceptedProgram?_of_ok hcompile file
    "✗ Compilation failed - no output generated" "✗ Compilation failed - no output generated"
    { files }
  have herr (line : String) : CliM.err [line] { files } = (.ok (), { files, stderr := [line] }) :=
    rfl
  obtain ⟨stdout, hemit⟩ := emitSource_of_ok hp host profile
    { files, stderr := ["Compiling " ++ (Path.ofText file).text ++ " → " ++ output.text] }
  have hget (s : Session) : (get : CliM Session) s = (.ok s, s) := rfl
  rw [Command.execute, Command.perform, compileCommand, CliM.bind_of_ok (needFile_run hread),
    houtput, pure_bind, CliM.bind_of_ok (source_run hread), CliM.bind_of_ok haccepted]
  dsimp only
  rw [CliM.bind_of_ok (herr _), CliM.bind_of_ok hemit, CliM.bind_of_ok (hget _), hwrite]
  exact ⟨rfl, rfl, rfl⟩

theorem execute_compile_of_error (hread : readText files (Path.ofText file) = .ok text)
    (houtput : outputPath (Path.ofText file) output? = pure output)
    (hcompile : compile true text = .error failure) :
    ((Command.compile file output? profile).execute host files).ending.Follows failure ∧
      ((Command.compile file output? profile).execute host files).Leaves files [] := by
  have herr (line : String) : CliM.err [line] { files } = (.ok (), { files, stderr := [line] }) :=
    rfl
  rw [Command.execute, Command.perform, compileCommand, CliM.bind_of_ok (needFile_run hread),
    houtput, pure_bind, CliM.bind_of_ok (source_run hread)]
  rcases ends_of_error hcompile file "✗ Compilation failed - no output generated"
    "✗ Compilation failed - no output generated" host profile { files }
    with ⟨hreported, stderr, hrun⟩ | ⟨hreported, f, hrun⟩ | ⟨hreported, p, hrun, hemit⟩
  · rw [CliM.bind_of_ok hrun]
    exact ⟨.told hreported, rfl, rfl⟩
  · rw [CliM.bind_of_error hrun]
    exact ⟨.left hreported f, rfl, rfl⟩
  · rw [CliM.bind_of_ok hrun]
    dsimp only
    rw [CliM.bind_of_ok (herr _)]
    obtain ⟨f, hfail⟩ := hemit
      { files, stderr := ["Compiling " ++ (Path.ofText file).text ++ " → " ++ output.text] }
    rw [CliM.bind_of_error hfail]
    exact ⟨.left hreported f, rfl, rfl⟩

theorem execute_run_of_ok (hread : readText files (Path.ofText file) = .ok text)
    (hcompile : compile true text = .ok code) :
    ((Command.run file profile).execute host files).ending = .exit host.childExit ∧
      ((Command.run file profile).execute host files).Leaves files [code] := by
  obtain ⟨p, hp, haccepted⟩ := acceptedProgram?_of_ok hcompile file
    "✗ Cannot run - compilation failed" "✗ Cannot run - type errors found" { files }
  obtain ⟨stdout, hemit⟩ := emitSource_of_ok hp host profile { files }
  rw [Command.execute, Command.perform, runCommand, CliM.bind_of_ok (needFile_run hread),
    CliM.bind_of_ok (source_run hread), CliM.bind_of_ok haccepted]
  dsimp only
  rw [CliM.bind_of_ok hemit]
  exact ⟨rfl, rfl, rfl⟩

theorem execute_run_of_error (hread : readText files (Path.ofText file) = .ok text)
    (hcompile : compile true text = .error failure) :
    ((Command.run file profile).execute host files).ending.Follows failure ∧
      ((Command.run file profile).execute host files).Leaves files [] := by
  rw [Command.execute, Command.perform, runCommand, CliM.bind_of_ok (needFile_run hread),
    CliM.bind_of_ok (source_run hread)]
  rcases ends_of_error hcompile file "✗ Cannot run - compilation failed"
    "✗ Cannot run - type errors found" host profile { files }
    with ⟨hreported, stderr, hrun⟩ | ⟨hreported, f, hrun⟩ | ⟨hreported, p, hrun, hemit⟩
  · rw [CliM.bind_of_ok hrun]
    exact ⟨.told hreported, rfl, rfl⟩
  · rw [CliM.bind_of_error hrun]
    exact ⟨.left hreported f, rfl, rfl⟩
  · rw [CliM.bind_of_ok hrun]
    dsimp only
    obtain ⟨f, hfail⟩ := hemit { files }
    rw [CliM.bind_of_error hfail]
    exact ⟨.left hreported f, rfl, rfl⟩

end Commands

/-- **The commands agree with the compiler.**  For a file that can be read and an output that can be
written, `compile` succeeds exactly if the text can be compiled.  Then the output holds the code and
no other place has changed, and `run` hands the code to the interpreter, once, and changes no file.
Otherwise a failure that is reported ends both commands with 1, any other one leaves them, no file
has changed, and nothing was handed to the interpreter. -/
theorem execute_agrees (host : Host) (files : FileTree) (file : String) (output? : Option String)
    (profile : Bool) {source : String} {output : Path}
    (hread : readText files (Path.ofText file) = .ok source)
    (houtput : outputPath (Path.ofText file) output? = pure output)
    (hwritable : files.Writable output) :
    let compiled := (Command.compile file output? profile).execute host files
    let ran := (Command.run file profile).execute host files
    (compiled.ending = .exit 0 ↔ ∃ code, compile true source = .ok code) ∧
    (∀ code, compile true source = .ok code →
      compiled.session.files.read output = .ok (Text.encode code) ∧
      (∀ place, files.locate output ≠ .ok place →
        compiled.session.files.entry? place = files.entry? place) ∧
      ran.ending = .exit host.childExit ∧ ran.Leaves files [code]) ∧
    ∀ failure, compile true source = .error failure →
      compiled.ending.Follows failure ∧ compiled.Leaves files [] ∧
      ran.ending.Follows failure ∧ ran.Leaves files [] := by
  intro compiled ran
  refine ⟨?_, ?_, ?_⟩
  · constructor
    · intro hexit
      cases hcompile : compile true source with
      | ok code => exact ⟨code, rfl⟩
      | error failure =>
        have hends := (execute_compile_of_error host profile hread houtput hcompile).1
        exact absurd hexit hends.ne_zero
    · rintro ⟨code, hcompile⟩
      obtain ⟨files', hwrite⟩ := hwritable.exists_write (Text.encode code)
      exact (execute_compile_of_ok host profile hread houtput hwrite hcompile).1
  · intro code hcompile
    obtain ⟨files', hwrite⟩ := hwritable.exists_write (Text.encode code)
    obtain ⟨-, hfiles, -⟩ := execute_compile_of_ok host profile hread houtput hwrite hcompile
    refine ⟨?_, fun place hplace => ?_, execute_run_of_ok host profile hread hcompile⟩
    · rw [hfiles]
      exact FileTree.read_write hwrite
    · rw [hfiles]
      exact FileTree.entry?_write hwrite hplace
  · intro failure hcompile
    have hcompiled := execute_compile_of_error host profile hread houtput hcompile
    exact ⟨hcompiled.1, hcompiled.2, execute_run_of_error host profile hread hcompile⟩

/-- A text that is compiled and run, and one that neither command comes through with. -/
theorem execute_agrees_two_files :
    let files : FileTree := { entries := [(["good.ow"], .file (Text.encode "let x = 1")),
      (["bad.ow"], .file (Text.encode "print()"))] }
    let host : Host := ⟨7, ⟨"1", "1", "1", "1", "4"⟩⟩
    let written := (Command.compile "good.ow" none false).execute host files
    let left := (Command.compile "bad.ow" (some "good.ow") true).execute host files
    written.session.files.read (Path.ofText "good.py") = .ok (Text.encode "x = 1") ∧
      written.session.files.entry? ["bad.ow"] = files.entry? ["bad.ow"] ∧
      ((Command.run "good.ow" false).execute host files).Leaves files ["x = 1"] ∧
      left.ending ≠ .exit 0 ∧ left.Leaves files [] := by
  intro files host written left
  have hgood : (compile true "let x = 1").toOption = some "x = 1" := by decide +kernel
  have hbad : isAnswered (compile true "print()") = false := by decide +kernel
  have hreadGood : readText files (Path.ofText "good.ow") = .ok "let x = 1" := by decide +kernel
  have hreadBad : readText files (Path.ofText "bad.ow") = .ok "print()" := by decide +kernel
  have hnew : files.Writable (Path.ofText "good.py") :=
    ⟨["good.py"], by decide +kernel, by decide +kernel⟩
  have hold : files.Writable (Path.ofText "good.ow") :=
    ⟨["good.ow"], by decide +kernel, by decide +kernel⟩
  have hplace : files.locate (Path.ofText "good.py") ≠ .ok ["bad.ow"] := by decide +kernel
  cases hcode : compile true "let x = 1" with
  | error failure =>
    rw [hcode] at hgood
    cases hgood
  | ok code =>
    rw [hcode] at hgood
    obtain rfl : code = "x = 1" := by simpa [Except.toOption] using hgood
    have hdone := (execute_agrees host files "good.ow" none false hreadGood rfl hnew).2.1 _ hcode
    refine ⟨hdone.1, hdone.2.1 _ hplace, hdone.2.2.2, ?_⟩
    cases hfailure : compile true "print()" with
    | ok code =>
      rw [hfailure] at hbad
      cases hbad
    | error failure =>
      have hleft := (execute_agrees host files "bad.ow" (some "good.ow") true hreadBad rfl
        hold).2.2 _ hfailure
      exact ⟨hleft.1.ne_zero, hleft.2.1⟩

end Owl.Cli
