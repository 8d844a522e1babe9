/-
Checking many files at once.

A check of a directory checks each file below it and counts what it finds.  The exit
code comes from counts that are kept along the way in one output mode, and from the
reports in the other.
-/
import Owl.Proofs.Commands

namespace Owl.Cli

/-! ### Paths -/

theorem not_mem_of_mem_splitOn {c : Char} {cs part : List Char} (h : part ∈ cs.splitOn c) :
    c ∉ part := by
  induction cs generalizing part with
  | nil =>
    rw [List.splitOn_nil, List.mem_singleton] at h
    simp [h]
  | cons d cs ih =>
    rw [List.splitOn_cons_eq_if_modifyHead] at h
    split at h
    · rcases List.mem_cons.mp h with rfl | h
      · exact List.not_mem_nil
      · exact ih h
    · next hd =>
      cases hsplit : cs.splitOn c with
      | nil => exact absurd hsplit (List.splitOn_ne_nil c cs)
      | cons first rest =>
        rw [hsplit] at h ih
        rcases List.mem_cons.mp h with rfl | h
        · rw [List.mem_cons, not_or]
          exact ⟨fun heq => hd (by simp [heq]), ih (List.mem_cons_self ..)⟩
        · exact ih (List.mem_cons_of_mem _ h)

theorem splitOn_slashes (k : Nat) (cs : List Char) :
    (List.replicate k '/' ++ cs).splitOn '/' = List.replicate k [] ++ cs.splitOn '/' := by
  induction k with
  | zero => rfl
  | succ k ih =>
    rw [List.replicate_succ, List.cons_append, List.splitOn_cons_eq_if_modifyHead, if_pos (by simp),
      ih, List.replicate_succ, List.cons_append]

namespace Path

/-- A name that a path can lead through. -/
structure IsName (name : String) : Prop where
  ne_empty : name ≠ ""
  ne_dot : name ≠ "."
  unbroken : '/' ∉ name.toList

/-- A path as it can be written: its root is at most two slashes, and its parts are names. -/
structure Proper (p : Path) : Prop where
  root : ∃ k ≤ 2, p.root = String.ofList (List.replicate k '/')
  parts : ∀ part ∈ p.parts, IsName part

theorem proper_ofText (s : String) : (ofText s).Proper := by
  refine ⟨?_, fun part hpart => ?_⟩
  · rw [ofText, rootOf]
    split
    · exact ⟨0, by decide, rfl⟩
    · exact ⟨2, by decide, rfl⟩
    · exact ⟨1, by decide, rfl⟩
  · obtain ⟨hpart, hnamed⟩ := List.mem_filter.mp hpart
    obtain ⟨cs, hcs, rfl⟩ := List.mem_map.mp hpart
    simp only [Bool.and_eq_true, bne_iff_ne] at hnamed
    refine ⟨hnamed.1, hnamed.2, ?_⟩
    rw [String.toList_ofList]
    exact not_mem_of_mem_splitOn hcs

theorem rootOf_slashes {k : Nat} (hk : k ≤ 2) {cs : List Char} (hcs : cs.head? ≠ some '/') :
    rootOf (List.replicate k '/' ++ cs) = String.ofList (List.replicate k '/') := by
  have hrest : cs.takeWhile (· == '/') = [] := by
    cases cs with
    | nil => rfl
    | cons c cs =>
      rw [List.takeWhile_cons, if_neg]
      simpa using hcs
  rw [rootOf, List.takeWhile_append_of_pos (by simp), hrest, List.append_nil, List.length_replicate]
  match k, hk with
  | 0, _ | 1, _ | 2, _ => rfl

/-- What stands in a path behind its root. -/
theorem parts_intercalate {parts : List String} (h : ∀ part ∈ parts, IsName part) :
    (("/".intercalate parts).toList.head? ≠ some '/') ∧
    ((("/".intercalate parts).toList.splitOn '/').map String.ofList).filter
      (fun part => part != "" && part != ".") = parts := by
  cases parts with
  | nil => decide
  | cons first rest =>
    have hlist : ("/".intercalate (first :: rest)).toList =
        ['/'].intercalate ((first :: rest).map String.toList) := String.toList_intercalate
    constructor
    · obtain ⟨hne, -, hslash⟩ := h first (List.mem_cons_self ..)
      cases hfirst : first.toList with
      | nil => exact absurd (String.toList_eq_nil_iff.mp hfirst) hne
      | cons c cs =>
        have hc : c ≠ '/' := fun heq => hslash (by simp [hfirst, heq])
        rw [hlist]
        cases rest <;> simpa [hfirst, List.intercalate_cons_cons] using hc
    · rw [hlist, List.splitOn_intercalate '/' ?_ (by simp), List.map_map]
      · have hid : (String.ofList ∘ String.toList) = id := by
          funext s
          exact String.ofList_toList
        rw [hid, List.map_id, List.filter_eq_self]
        intro part hpart
        obtain ⟨hne, hdot, -⟩ := h part hpart
        simp [hne, hdot]
      · intro cs hcs
        obtain ⟨part, hpart, rfl⟩ := List.mem_map.mp hcs
        exact (h part hpart).unbroken

/-- A path can be written down and read again. -/
theorem reads_text {p : Path} (h : p.Proper) : ofText p.text = p := by
  obtain ⟨root, parts⟩ := p
  obtain ⟨⟨k, hk, hroot⟩, hparts⟩ := h
  obtain ⟨hhead, hread⟩ := parts_intercalate hparts
  simp only at hroot hparts hhead hread
  rw [text]
  split
  · next hempty =>
    simp only [Bool.and_eq_true, beq_iff_eq, List.isEmpty_iff] at hempty
    rw [hempty.1, hempty.2]
    decide
  · have hlist : (root ++ "/".intercalate parts).toList =
        List.replicate k '/' ++ ("/".intercalate parts).toList := by
      rw [String.toList_append, hroot, String.toList_ofList]
    rw [ofText, hlist, rootOf_slashes hk hhead, splitOn_slashes, List.map_append,
      List.filter_append, hread, ← hroot]
    simp

end Path

def FileTree.Named (t : FileTree) : Prop :=
  ∀ entry ∈ t.entries, ∀ name ∈ entry.1, Path.IsName name

theorem proper_of_mem_filesToCheck {t : FileTree} (ht : t.Named) {p q : Path} (hp : p.Proper)
    (hq : q ∈ filesToCheck t p) : q.Proper := by
  rw [filesToCheck] at hq
  split at hq
  · cases hq
  · next place hplace =>
    split at hq
    · rwa [List.mem_singleton.mp hq]
    · obtain ⟨names, hnames, rfl⟩ := List.mem_map.mp hq
      have hbelow := (List.mem_filter.mp (List.mem_mergeSort.mp hnames)).1
      obtain ⟨⟨full, e⟩, hentry, hdrop⟩ := List.mem_filterMap.mp hbelow
      have hnames' := (Option.ite_none_right_eq_some.mp hdrop).2
      cases hnames'
      refine ⟨hp.root, fun part hpart => ?_⟩
      rcases List.mem_append.mp hpart with hpart | hpart
      · exact hp.parts part hpart
      · exact ht _ hentry part (List.mem_of_mem_drop hpart)
    · cases hq

theorem has_of_filesToCheck {t : FileTree} {p : Path} (h : filesToCheck t p ≠ []) :
    t.has p = .ok true := by
  rw [filesToCheck] at h
  cases hplace : t.locate p with
  | error _ => simp [hplace] at h
  | ok place =>
    cases hentry : t.entry? place with
    | none => simp [hplace, hentry] at h
    | some e =>
      simp only [FileTree.has, FileTree.find, hplace, hentry, bind, Except.bind]
      rfl

theorem filesToCheck_of_read {t : FileTree} {p : Path} {bytes : List UInt8}
    (h : t.read p = .ok bytes) : filesToCheck t p = [p] := by
  rw [filesToCheck]
  cases hplace : t.locate p with
  | error _ =>
    simp only [FileTree.read, FileTree.find, hplace, bind, Except.bind] at h
    cases h
  | ok place =>
    simp only [FileTree.read, FileTree.find, hplace, bind, Except.bind] at h
    cases hentry : t.entry? place with
    | none =>
      rw [hentry] at h
      cases h
    | some e =>
      rw [hentry] at h
      cases e with
      | file bytes => simp only [hentry]
      | dir => cases h

/-! ### Counting along the way -/

/-- What is counted when some files are checked after others. -/
theorem Tally.of_foldlM {t : FileTree} {noWarnings : Bool} {paths : List Path} {start tally : Tally}
    (h : paths.foldlM (addFile t noWarnings) start = .ok tally) :
    ∃ reports, List.Forall₂ (fun p r => FileReport.ofFile t noWarnings p = .ok r) paths reports ∧
      tally = ⟨start.reports ++ reports, start.errors + totalErrors reports,
        start.warnings + totalWarnings reports⟩ := by
  induction paths generalizing start with
  | nil =>
    cases h
    exact ⟨[], .nil, by simp [totalErrors, totalWarnings]⟩
  | cons p paths ih =>
    rw [List.foldlM_cons, addFile] at h
    cases hreport : FileReport.ofFile t noWarnings p with
    | error f =>
      rw [hreport] at h
      cases h
    | ok r =>
      rw [hreport] at h
      obtain ⟨reports, hreports, htally⟩ := ih h
      refine ⟨r :: reports, .cons hreport hreports, ?_⟩
      rw [htally]
      simp [totalErrors, totalWarnings, Nat.add_assoc]

/-- How a check ends and what it prints, from what is counted. -/
def Tally.outcome (t : FileTree) (denyWarnings : Bool) (tally : Tally) : Bool → Outcome
  | true => ⟨.exit (exitCode denyWarnings tally.errors tally.warnings),
      { files := t, stdout := [(reportsJson tally.reports).pretty] }⟩
  | false => ⟨.exit (exitCode denyWarnings (totalErrors tally.reports) (totalWarnings tally.reports)),
      { files := t, stderr := humanLines denyWarnings tally.reports }⟩

section Check

variable (host : Host) {t : FileTree} {path : String} {paths : List Path}
  {denyWarnings noWarnings : Bool}

/-- How a check ends, and what it prints. -/
theorem execute_check (json : Bool) (hpaths : filesToCheck t (Path.ofText path) = paths)
    (hne : paths ≠ []) :
    (Command.check path denyWarnings noWarnings json).execute host t =
      match paths.foldlM (Tally.addFile t noWarnings) {} with
      | .ok tally => tally.outcome t denyWarnings json
      | .error f => Halt.outcome { files := t } (.fault f) := by
  have hthere := isThere_run (has_of_filesToCheck (hpaths ▸ hne))
  rw [Command.execute, Command.perform, checkCommand, CliM.bind_of_ok hthere]
  cases paths with
  | nil => exact absurd rfl hne
  | cons p paths =>
    have hget : (get : CliM Session) { files := t } = (.ok { files := t }, { files := t }) := rfl
    rw [if_pos rfl, CliM.bind_of_ok hget, hpaths]
    simp only
    rw [CliM.bind_of_ok hget]
    cases hfold : (p :: paths).foldlM (Tally.addFile t noWarnings) {} with
    | error f => rfl
    | ok tally => cases json <;> rfl

theorem execute_check_file {p : Path} (hp : p.Proper) {r : FileReport}
    (hr : FileReport.ofFile t noWarnings p = .ok r) (json : Bool) :
    (Command.check p.text denyWarnings noWarnings json).execute host t =
      Tally.outcome t denyWarnings ⟨[r], r.errors.length, r.warnings.length⟩ json := by
  have hread : ∃ text, readText t p = .ok text := by
    cases htext : readText t p with
    | ok text => exact ⟨text, rfl⟩
    | error f =>
      rw [FileReport.ofFile, htext] at hr
      cases hr
  obtain ⟨text, htext⟩ := hread
  obtain ⟨bytes, hbytes⟩ := of_readText_eq_ok htext
  have hpaths : filesToCheck t (Path.ofText p.text) = [p] := by
    rw [Path.reads_text hp]
    exact filesToCheck_of_read hbytes
  rw [execute_check host json hpaths (List.cons_ne_nil p []), List.foldlM_cons, Tally.addFile, hr]
  show Tally.outcome t denyWarnings ⟨[r], 0 + r.errors.length, 0 + r.warnings.length⟩ json = _
  rw [Nat.zero_add, Nat.zero_add]

end Check

/-! ### Exit codes -/

def FileReport.exitCode (denyWarnings : Bool) (r : FileReport) : Nat :=
  Cli.exitCode denyWarnings r.errors.length r.warnings.length

theorem length_flatMap_pos (f : FileReport → List Remark) {reports : List FileReport} :
    0 < (reports.flatMap f).length ↔ ∃ r ∈ reports, 0 < (f r).length := by
  rw [List.length_pos_iff, Ne, List.flatMap_eq_nil_iff]
  simp [List.length_pos_iff]

/-- The exit code for counts: errors come before denied warnings. -/
theorem exitCode_eq_one {deny : Bool} {errors warnings : Nat} :
    exitCode deny errors warnings = 1 ↔ 0 < errors := by
  rw [exitCode]
  split
  · simp [*]
  · split <;> simp [*]

theorem exitCode_eq_two {deny : Bool} {errors warnings : Nat} :
    exitCode deny errors warnings = 2 ↔ ¬ 0 < errors ∧ 0 < warnings ∧ deny = true := by
  rw [exitCode]
  split
  · simp [*]
  · next h =>
    split
    · next hw => simpa [h] using hw
    · next hw => simpa [h] using hw

/-- The exit code of some reports is made up of theirs. -/
theorem exitCode_total (deny : Bool) (reports : List FileReport) :
    exitCode deny (totalErrors reports) (totalWarnings reports) =
      if ∃ r ∈ reports, r.exitCode deny = 1 then 1
      else if ∃ r ∈ reports, r.exitCode deny = 2 then 2 else 0 := by
  simp only [FileReport.exitCode, exitCode_eq_one, exitCode_eq_two]
  rw [exitCode, totalErrors, totalWarnings]
  by_cases herrors : ∃ r ∈ reports, 0 < r.errors.length
  · rw [if_pos ((length_flatMap_pos _).mpr herrors), if_pos herrors]
  · rw [if_neg (mt (length_flatMap_pos _).mp herrors), if_neg herrors]
    refine if_congr ?_ rfl rfl
    rw [Bool.and_eq_true, decide_eq_true_iff, length_flatMap_pos]
    constructor
    · rintro ⟨⟨r, hr, hpos⟩, hdeny⟩
      exact ⟨r, hr, fun h => herrors ⟨r, hr, h⟩, hpos, hdeny⟩
    · rintro ⟨r, hr, -, hpos, hdeny⟩
      exact ⟨⟨r, hr, hpos⟩, hdeny⟩

/-! ### Results -/

theorem length_flatMap_foldr (f : FileReport → List Remark) (reports : List FileReport) :
    (reports.flatMap f).length = reports.foldr (fun r n => (f r).length + n) 0 := by
  induction reports with
  | nil => rfl
  | cons r reports ih => rw [List.flatMap_cons, List.length_append, ih, List.foldr_cons]

theorem countP_foldr (reports : List FileReport) : reports.countP (!·.errors.isEmpty) =
    reports.foldr (fun r n => (if r.errors.isEmpty then 0 else 1) + n) 0 := by
  induction reports with
  | nil => rfl
  | cons r reports ih =>
    rw [List.countP_cons, ih, List.foldr_cons, Nat.add_comm]
    cases r.errors.isEmpty <;> rfl

theorem exists_mem_iff_of_forall₂ {α β : Type} {R : α → β → Prop} {xs : List α} {ys : List β}
    {P : α → Prop} {Q : β → Prop} (h : List.Forall₂ R xs ys) (hiff : ∀ x y, R x y → (P x ↔ Q y)) :
    (∃ x ∈ xs, P x) ↔ ∃ y ∈ ys, Q y := by
  induction h with
  | nil => simp
  | cons hxy _ ih => simp only [List.exists_mem_cons_iff, hiff _ _ hxy, ih]

/-- Without warnings a file has the report that it has with them, but for the warnings. -/
theorem FileReport.ofFile_noWarnings (t : FileTree) (p : Path) :
    ofFile t true p = (ofFile t false p).map fun r => { r with warnings := [] } := by
  rw [ofFile, ofFile]
  cases readText t p with
  | error f => rfl
  | ok text =>
    show ofSource p.text true text = (ofSource p.text false text).map _
    rw [ofSource, ofSource]
    cases readSource text <;> rfl

/-- A check of many files.

In either output mode its exit code is 1 if the check of one of the files ends with 1, 2 if no
such check ends with 1 but one with 2, and 0 otherwise.  As JSON it prints the reports that the
checks of the files print, with sums of what is in them.  Warnings that are not wanted are left
out of the reports, and nothing else is. -/
theorem check_aggregates (host : Host) {t : FileTree} (ht : t.Named) (path : String)
    (denyWarnings noWarnings : Bool) {paths : List Path}
    (hpaths : filesToCheck t (Path.ofText path) = paths) (hne : paths ≠ [])
    (hcaught : ∀ f,
      ((Command.check path denyWarnings noWarnings false).execute host t).ending ≠ .fault f) :
    let check (path : String) (json : Bool) :=
      (Command.check path denyWarnings noWarnings json).execute host t
    (∀ json alone, (check path json).ending = .exit
      (if ∃ p ∈ paths, (check p.text alone).ending = .exit 1 then 1
        else if ∃ p ∈ paths, (check p.text alone).ending = .exit 2 then 2 else 0)) ∧
    (∃ reports, List.Forall₂ (fun p r => FileReport.ofFile t noWarnings p = .ok r ∧
        (check p.text true).session.stdout = [(reportsJson [r]).pretty]) paths reports ∧
      (check path true).session.stdout = [(reportsJson reports).pretty] ∧
      reportsJson reports = .object [("version", .text version),
        ("files", .list (reports.map FileReport.toJson)),
        ("summary", .object [("total_files", .int paths.length),
          ("files_with_errors",
            .int (reports.foldr (fun r n => (if r.errors.isEmpty then 0 else 1) + n) 0 : Nat)),
          ("total_errors", .int (reports.foldr (fun r n => r.errors.length + n) 0 : Nat)),
          ("total_warnings", .int (reports.foldr (fun r n => r.warnings.length + n) 0 : Nat))])]) ∧
    ∀ p, FileReport.ofFile t true p =
      (FileReport.ofFile t false p).map fun r => { r with warnings := [] } := by
  intro check
  cases hfold : paths.foldlM (Tally.addFile t noWarnings) {} with
  | error f =>
    -- The fault of one file would be that of the whole check.
    refine absurd ?_ (hcaught f)
    rw [execute_check host false hpaths hne, hfold]
    rfl
  | ok tally =>
    obtain ⟨reports, hreports, rfl⟩ := Tally.of_foldlM hfold
    have hrun : ∀ json, check path json = Tally.outcome t denyWarnings
        ⟨reports, totalErrors reports, totalWarnings reports⟩ json := by
      intro json
      show Command.execute .. = _
      rw [execute_check host json hpaths hne, hfold]
      simp
    have hproper : ∀ p ∈ paths, p.Proper := fun p hp =>
      proper_of_mem_filesToCheck ht (Path.proper_ofText path) (hpaths ▸ hp)
    have halone : List.Forall₂ (fun p r => FileReport.ofFile t noWarnings p = .ok r ∧
        ∀ json, check p.text json = Tally.outcome t denyWarnings
          ⟨[r], r.errors.length, r.warnings.length⟩ json) paths reports := by
      refine ((List.forall₂_and_left _ _).mpr ⟨hproper, hreports⟩).imp ?_
      rintro p r ⟨hp, hr⟩
      exact ⟨hr, execute_check_file host hp hr⟩
    refine ⟨fun json alone => ?_, ⟨reports, halone.imp ?_, by rw [hrun]; rfl, ?_⟩,
      FileReport.ofFile_noWarnings t⟩
    · -- the exit code
      have hcode : ∀ code : Nat, (∃ p ∈ paths, (check p.text alone).ending = .exit code) ↔
          ∃ r ∈ reports, r.exitCode denyWarnings = code := by
        intro code
        refine exists_mem_iff_of_forall₂ halone fun p r hpr => ?_
        have hend : (check p.text alone).ending = .exit (r.exitCode denyWarnings) := by
          rw [hpr.2 alone]
          cases alone <;> simp [Tally.outcome, FileReport.exitCode, totalErrors, totalWarnings]
        rw [hend, Ending.exit.injEq]
        exact Int.ofNat_inj
      have hending : (check path json).ending =
          .exit (exitCode denyWarnings (totalErrors reports) (totalWarnings reports)) := by
        rw [hrun]
        cases json <;> rfl
      rw [hending, exitCode_total]
      simp only [show (∃ p ∈ paths, (check p.text alone).ending = .exit 1) ↔ _ from hcode 1,
        show (∃ p ∈ paths, (check p.text alone).ending = .exit 2) ↔ _ from hcode 2]
      split_ifs <;> rfl
    · rintro p r ⟨hr, hcheck⟩
      exact ⟨hr, by rw [hcheck]; rfl⟩
    · rw [reportsJson, hreports.length_eq, totalErrors, totalWarnings, length_flatMap_foldr,
        length_flatMap_foldr, countP_foldr]

/-- A directory with a file that is wrong and one with a denied warning, and another with only
the latter. -/
theorem check_aggregates_directories :
    let warned := Text.encode "fn f() \x7b let x = 1 \x7d"
    let files : FileTree := { entries := [(["d"], .dir), (["d", "a.ow"], .file (Text.encode "g()")),
      (["d", "b.ow"], .file warned), (["e"], .dir), (["e", "b.ow"], .file warned)] }
    let host : Host := ⟨7, ⟨"1", "1", "1", "1", "4"⟩⟩
    let check (path : String) (json : Bool) := (Command.check path true false json).execute host files
    (∀ json, (check "d" json).ending = .exit 1) ∧ ∀ json, (check "e" json).ending = .exit 2 := by
  intro warned files host check
  have hnamed : files.Named := by
    intro entry hentry name hname
    have hall : ∀ entry ∈ files.entries, ∀ name ∈ entry.1,
        name ≠ "" ∧ name ≠ "." ∧ '/' ∉ name.toList := by decide +kernel
    obtain ⟨hempty, hdot, hslash⟩ := hall entry hentry name hname
    exact ⟨hempty, hdot, hslash⟩
  have hd : filesToCheck files (Path.ofText "d") = [⟨"", ["d", "a.ow"]⟩, ⟨"", ["d", "b.ow"]⟩] := by
    have hplace : files.locate (Path.ofText "d") = .ok ["d"] := by decide +kernel
    have hentry : files.entry? ["d"] = some .dir := by decide +kernel
    have hbelow : ((files.below ["d"]).filter fun names => names.getLast?.any fun name =>
        ".ow".toList.isSuffixOf name.toList) = [["a.ow"], ["b.ow"]] := by decide +kernel
    simp only [filesToCheck, hplace, hentry, FileTree.withEnding, hbelow]
    rw [List.mergeSort_of_pairwise (by decide +kernel)]
    rfl
  have he : filesToCheck files (Path.ofText "e") = [⟨"", ["e", "b.ow"]⟩] := by decide +kernel
  have hdEnds : (check "d" false).ending = .exit 1 := by
    show (Command.execute ..).ending = _
    rw [execute_check host false hd (List.cons_ne_nil _ _)]
    decide +kernel
  have heEnds : (check "e" false).ending = .exit 2 := by decide +kernel
  have hwrong : (check "d/a.ow" false).ending = .exit 1 := by decide +kernel
  have hwarned : (check "e/b.ow" false).ending = .exit 2 := by decide +kernel
  constructor
  · intro json
    have hends := (check_aggregates host hnamed "d" true false hd (by simp)
      (fun f hf => by cases hdEnds.symm.trans hf)).1 json false
    rw [hends, if_pos ⟨_, List.mem_cons_self .., hwrong⟩]
  · intro json
    have hends := (check_aggregates host hnamed "e" true false he (by simp)
      (fun f hf => by cases heEnds.symm.trans hf)).1 json false
    rw [hends, if_neg, if_pos ⟨_, List.mem_cons_self .., hwarned⟩]
    rintro ⟨p, hp, hone⟩
    obtain rfl := List.mem_singleton.mp hp
    cases hwarned.symm.trans hone

end Owl.Cli
