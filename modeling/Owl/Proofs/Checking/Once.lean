/-
Nothing is reported twice.

Most reports are compared with those that are there before they are recorded.
The others are recorded every time, but each of them belongs to a site of its own.

* `Checker.Once` — what a check that uses up some sites may record.
-/
import Owl.Proofs.Standing

namespace Owl

/-! ### Marks and sites -/

/-- The site of a mark, if such marks are recorded without a look at the others. -/
def Mark.site? : Mark → Option Site
  | .finding code pos => (siteKind? code).map fun kind => ⟨kind, some pos⟩
  | .warning code pos? _ => (siteKind? code).map fun kind => ⟨kind, pos?⟩

theorem Problem.siteKind?_code (p : Problem) : siteKind? p.code = none := by
  cases p <;> rfl

theorem Problem.site?_mark (p : Problem) (place : Span) :
    (Finding.diagnostic (p.toDiagnostic place)).mark.site? = none := by
  show (siteKind? p.code).map _ = none
  rw [p.siteKind?_code]
  rfl

theorem Concern.site?_mark (c : Concern) (place? : Option Span) :
    (c.toWarning place?).mark.site? =
      (siteKind? c.code).map fun kind => ⟨kind, (c.toWarning place?).span?.map Span.start⟩ :=
  rfl

theorem Concern.span?_toWarning (c : Concern) (place : Span) :
    (c.toWarning (some place)).span? = some place := by
  show (if c.needsPlace then some place else some place) = some place
  rw [ite_self]

theorem Warning.key?_eq (w : Warning) :
    w.key? = (w.span?.map Span.start).map fun pos => (w.code, pos, w.message) := by
  rw [Option.map_map]
  rfl

theorem Warning.key?_eq_of_mark {v w : Warning} (h : v.mark = w.mark) : v.key? = w.key? := by
  obtain ⟨hcode, hpos, hmessage⟩ := Mark.warning.inj h
  rw [key?_eq, key?_eq, hcode, hpos, hmessage]

namespace Checker

def marks (c : Checker) : List Mark :=
  c.findings.map Finding.mark ++ c.warnings.map Warning.mark

theorem marks_finding (c : Checker) (f : Finding) :
    (marks { c with findings := c.findings ++ [f] }).Perm (f.mark :: c.marks) := by
  show ((c.findings ++ [f]).map Finding.mark ++ c.warnings.map Warning.mark).Perm _
  rw [List.map_append, List.append_assoc]
  exact List.perm_middle

theorem marks_warning (c : Checker) (w : Warning) :
    (marks { c with warnings := c.warnings ++ [w] }).Perm (w.mark :: c.marks) := by
  show (c.findings.map Finding.mark ++ (c.warnings ++ [w]).map Warning.mark).Perm _
  rw [List.map_append, ← List.append_assoc]
  exact List.perm_append_singleton _ _

theorem not_mem_marks_of_hasReported {c : Checker} {d : Diagnostic}
    (hcode : (Finding.diagnostic d).mark.site? = none)
    (h : ¬ c.hasReported d.code d.span.start = true) : (Finding.diagnostic d).mark ∉ c.marks := by
  intro hmem
  rcases List.mem_append.mp hmem with hmem | hmem
  · obtain ⟨f, hf, hmark⟩ := List.mem_map.mp hmem
    cases f with
    | matchFault fault pos =>
      -- A fault of a match has a code that no diagnostic has.
      rw [← hmark] at hcode
      cases hcode
    | diagnostic d' =>
      obtain ⟨hcode', hpos⟩ := Mark.finding.inj hmark
      refine h (List.any_eq_true.mpr ⟨d', List.mem_filterMap.mpr ⟨_, hf, rfl⟩, ?_⟩)
      rw [Bool.and_eq_true, beq_iff_eq, beq_iff_eq]
      exact ⟨hcode', hpos⟩
  · obtain ⟨w, -, hmark⟩ := List.mem_map.mp hmem
    cases hmark

theorem not_mem_marks_of_key? {c : Checker} {w : Warning}
    (h : ¬ (c.warnings.any fun other => other.key? == w.key?) = true) : w.mark ∉ c.marks := by
  intro hmem
  rcases List.mem_append.mp hmem with hmem | hmem
  · obtain ⟨f, -, hmark⟩ := List.mem_map.mp hmem
    cases hmark
  · obtain ⟨v, hv, hmark⟩ := List.mem_map.mp hmem
    exact h (List.any_eq_true.mpr ⟨v, hv, beq_iff_eq.mpr (Warning.key?_eq_of_mark hmark)⟩)

/-! ### What may be recorded -/

/-- The sites of what was recorded without a look. -/
def usedSites (c : Checker) : Multiset Site := c.marks.filterMap Mark.site?

/-- The marks of what was compared before it was recorded. -/
def comparedMarks (c : Checker) : List Mark := c.marks.filter fun m => m.site?.isNone

/-- From a state to a later one, at most the sites `s` were used up, and no mark that is compared
came twice. -/
structure Once (s : Multiset Site) (c d : Checker) : Prop where
  used : d.usedSites ≤ c.usedSites + s
  compared : c.comparedMarks.Nodup → d.comparedMarks.Nodup

namespace Once

variable {c d : Checker} {m : Mark}

theorem of_marks_eq (h : d.marks = c.marks) : Once 0 c d := by
  refine ⟨?_, ?_⟩
  · rw [usedSites, usedSites, h, add_zero]
  · rw [comparedMarks, comparedMarks, h]
    exact id

theorem trans {s t : Multiset Site} {e : Checker} (h : Once s c d) (h' : Once t d e) :
    Once (s + t) c e := by
  refine ⟨?_, fun hc => h'.compared (h.compared hc)⟩
  calc e.usedSites ≤ d.usedSites + t := h'.used
    _ ≤ c.usedSites + s + t := by gcongr; exact h.used
    _ = c.usedSites + (s + t) := add_assoc _ _ _

theorem mono {s t : Multiset Site} (h : Once s c d) (hst : s ≤ t) : Once t c d :=
  ⟨h.used.trans (by gcongr), h.compared⟩

/-- A mark that has a site uses it up. -/
theorem of_site {site : Site} (hperm : d.marks.Perm (m :: c.marks)) (hsite : m.site? = some site) :
    Once {site} c d := by
  refine ⟨?_, ?_⟩
  · have hused : d.usedSites = {site} + c.usedSites := by
      refine (Multiset.coe_eq_coe.mpr (hperm.filterMap _)).trans ?_
      rw [List.filterMap_cons_some hsite]
      rfl
    rw [hused, add_comm]
  · intro hc
    have hcompared := hperm.filter fun m => m.site?.isNone
    rw [List.filter_cons_of_neg (by rw [hsite]; simp)] at hcompared
    exact hcompared.nodup_iff.mpr hc

theorem of_new (hperm : d.marks.Perm (m :: c.marks)) (hsite : m.site? = none)
    (hnew : m ∉ c.marks) : Once 0 c d := by
  refine ⟨?_, ?_⟩
  · have hused : d.usedSites = c.usedSites := by
      refine (Multiset.coe_eq_coe.mpr (hperm.filterMap _)).trans ?_
      rw [List.filterMap_cons_none hsite]
      rfl
    rw [hused, add_zero]
  · intro hc
    have hcompared := hperm.filter fun m => m.site?.isNone
    rw [List.filter_cons_of_pos (by rw [hsite]; rfl)] at hcompared
    refine hcompared.nodup_iff.mpr (List.nodup_cons.mpr ⟨?_, hc⟩)
    exact fun hmem => hnew (List.mem_filter.mp hmem).1

end Once

theorem once_account : Account anyKind Once where
  refl c := .of_marks_eq rfl
  trans := Once.trans
  mono := Once.mono
  report c p _ place := by
    rw [addDiagnostic]
    split
    · exact .of_marks_eq rfl
    · next hreported =>
      have hsite := p.site?_mark place
      exact .of_new (marks_finding c _) hsite (not_mem_marks_of_hasReported hsite hreported)
  reportMatch c fault pos := .of_site (marks_finding c _) rfl
  warn c concern place? code placed := by
    rw [addWarning, placed, Bool.true_and]
    split
    · exact .of_marks_eq rfl
    · next hany =>
      refine .of_new (marks_warning c _) ?_ (not_mem_marks_of_key? hany)
      rw [Concern.site?_mark, code]
      rfl
  warnSite c concern kind code place? := by
    rw [addWarning]
    split
    · exact (Once.of_marks_eq rfl).mono (Multiset.zero_le _)
    · refine .of_site (marks_warning c _) ?_
      rw [Concern.site?_mark, code]
      rfl
  warnAlways c concern kind code place := by
    refine .of_site (marks_warning c _) ?_
    rw [Concern.site?_mark, code, concern.span?_toWarning]
    rfl
  defineVar c name v := .of_marks_eq rfl
  markUsed c name := .of_marks_eq rfl
  scope h := ⟨h.used, h.compared⟩
  loop h := ⟨h.used, h.compared⟩

/-- Marks are different if those that are compared are, and the sites of the others. -/
theorem nodup_of_sites {ms : List Mark} (hcompared : (ms.filter fun m => m.site?.isNone).Nodup)
    (hsites : (ms.filterMap Mark.site?).Nodup) : ms.Nodup := by
  induction ms with
  | nil => exact List.nodup_nil
  | cons m ms ih =>
    cases hsite : m.site? with
    | none =>
      rw [List.filter_cons_of_pos (by rw [hsite]; rfl), List.nodup_cons] at hcompared
      rw [List.filterMap_cons_none hsite] at hsites
      refine List.nodup_cons.mpr ⟨fun hmem => ?_, ih hcompared.2 hsites⟩
      exact hcompared.1 (List.mem_filter.mpr ⟨hmem, by rw [hsite]; rfl⟩)
    | some site =>
      rw [List.filter_cons_of_neg (by rw [hsite]; simp)] at hcompared
      rw [List.filterMap_cons_some hsite, List.nodup_cons] at hsites
      refine List.nodup_cons.mpr ⟨fun hmem => ?_, ih hcompared hsites.2⟩
      exact hsites.1 (List.mem_filterMap.mpr ⟨m, hmem, hsite⟩)

theorem check_once (p : Program) :
    Once p.sites { new with findings := [], warnings := [] } (new.check p) :=
  checkProgram_costs once_account (fun _ _ => .of_marks_eq rfl) (fun _ _ _ => .of_marks_eq rfl) p _

theorem check_usedSites_le (p : Program) : (new.check p).usedSites ≤ p.sites := by
  have hused : (new.check p).usedSites ≤ 0 + p.sites := (check_once p).used
  rwa [zero_add] at hused

/-- No two findings have the same code and place, and no two warnings the same code, place and
message. -/
theorem check_marks_nodup {p : Program} (h : p.sites.Nodup) : (new.check p).marks.Nodup :=
  nodup_of_sites ((check_once p).compared List.nodup_nil)
    (Multiset.nodup_of_le (check_usedSites_le p) h)

end Checker

/-- **Nothing is reported twice.**  Where a text has tokens and these are read into a program, no
two findings of a check have the same code and place, and no two warnings have the same code, place
and message. -/
theorem check_reports_nodup (source file : String) (tokens : List Token) (p : Program)
    (h : tokenize source = .ok tokens) (hp : parse file tokens = .ok p) :
    ((Checker.new.check p).findings.map fun f => (f.code, f.pos)).Nodup ∧
      ((Checker.new.check p).warnings.map fun w =>
        (w.code, w.span?.map Span.start, w.message)).Nodup := by
  have hmarks := Checker.check_marks_nodup (sites_nodup_of_parse h hp)
  obtain ⟨hfindings, hwarnings, -⟩ := List.nodup_append.mp hmarks
  refine ⟨?_, ?_⟩
  · refine List.Nodup.of_map (fun key => Mark.finding key.1 key.2) ?_
    rw [List.map_map]
    exact hfindings
  · refine List.Nodup.of_map (fun key => Mark.warning key.1 key.2.1 key.2.2) ?_
    rw [List.map_map]
    exact hwarnings

/-- A program with reports of every kind: a match of a number, an unknown name, a constant
condition, and three statements out of reach, one of which throws its value away. -/
theorem check_reports_nodup_all_kinds :
    ∃ tokens p,
      tokenize ("fn f() \x7b return 1 while true \x7b match 1 \x7b Some(a) => a \x7d \x7d " ++
        "Some(2) y \x7d") = .ok tokens ∧
      parse "" tokens = .ok p ∧
      (Checker.new.check p).findings.map Finding.code = ["E0000", "E0302"] ∧
      (Checker.new.check p).warnings.map Warning.code =
        ["W0201", "W0306", "W0201", "W0305", "W0201"] ∧
      ((Checker.new.check p).findings.map fun f => (f.code, f.pos)).Nodup ∧
      ((Checker.new.check p).warnings.map fun w =>
        (w.code, w.span?.map Span.start, w.message)).Nodup := by
  refine exists_parsed (P := fun p =>
      (Checker.new.check p).findings.map Finding.code = ["E0000", "E0302"] ∧
        (Checker.new.check p).warnings.map Warning.code =
          ["W0201", "W0306", "W0201", "W0305", "W0201"])
    toList_ofList_append (by decide +kernel) ?_
  rintro tokens p htokens hp ⟨hfindings, hwarnings⟩
  exact ⟨hfindings, hwarnings, check_reports_nodup _ "" tokens p htokens hp⟩

end Owl
