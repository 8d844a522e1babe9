/-
How diagnostics are printed.

A report is made of rows, and colours are control sequences around some of their
words.  Under a row of the source stands a row of carets.

* `Text.uncoloured` — a text without its control sequences.
-/
import Mathlib.Data.List.DropRight
import Mathlib.Data.List.Forall2
import Owl.Diagnostic.Snippet
import Owl.Proofs.Target.Spelling

namespace Owl

/-! ### Control sequences -/

namespace Text

/-- Drops control sequences: from an escape character that a bracket stands behind, to the next `m`.
`inside` says whether one is open. -/
def dropSequences (inside : Bool) : List Char → List Char
  | [] => []
  | c :: cs =>
    if inside then dropSequences (c != 'm') cs
    else if c == Colour.escape && cs.head? == some '[' && cs.contains 'm' then dropSequences true cs
    else c :: dropSequences false cs

def uncoloured (s : String) : String := String.ofList (dropSequences false s.toList)

theorem dropSequences_open {cs : List Char} (h : 'm' ∉ cs) (rest : List Char) :
    dropSequences true (cs ++ 'm' :: rest) = dropSequences false rest := by
  induction cs with
  | nil => simp [dropSequences]
  | cons c cs ih =>
    obtain ⟨hc, hcs⟩ := not_or.mp (mt List.mem_cons.mpr h)
    have hgo : (c != 'm') = true := by simpa using Ne.symm hc
    rw [List.cons_append, dropSequences, if_pos rfl, hgo, ih hcs]

theorem mem_intercalate {sep part : List Char} {parts : List (List Char)} {c : Char}
    (hpart : part ∈ parts) (hc : c ∈ part) : c ∈ sep.intercalate parts := by
  induction parts with
  | nil => cases hpart
  | cons first parts ih =>
    cases parts with
    | nil => simpa [← List.mem_singleton.mp hpart] using hc
    | cons next parts =>
      rw [List.intercalate_cons_cons, List.mem_append, List.mem_append]
      rcases List.mem_cons.mp hpart with rfl | hpart
      · exact .inl (.inl hc)
      · exact .inr (ih hpart)

/-- A text without the character that starts control sequences. -/
def IsPlain (s : String) : Prop := Colour.escape ∉ s.toList

instance (s : String) : Decidable (IsPlain s) :=
  inferInstanceAs (Decidable (Colour.escape ∉ s.toList))

theorem IsPlain.append {a b : String} (ha : IsPlain a) (hb : IsPlain b) : IsPlain (a ++ b) := by
  rw [IsPlain, String.toList_append, List.mem_append, not_or]
  exact ⟨ha, hb⟩

theorem not_mem_toString (n : Int) {c : Char} (hdigit : c.isDigit = false) (hsign : c ≠ '-') :
    c ∉ (toString n).toList := by
  have hnat (n : Nat) : c ∉ (toString n).toList := by
    rw [toString_nat, String.toList_ofList]
    exact fun h => absurd ((isDigits_toDigits n).2 _ h) (by simp [hdigit])
  cases n with
  | ofNat n => exact hnat n
  | negSucc n =>
    show c ∉ ("-" ++ toString (n + 1)).toList
    rw [String.toList_append, List.mem_append, not_or]
    exact ⟨by simpa using hsign, hnat (n + 1)⟩

theorem isPlain_int (n : Int) : IsPlain (toString n) := not_mem_toString n (by decide) (by decide)

/-- Without control sequences, the first text is the second, whatever follows. -/
def Decorates (coloured plain : String) : Prop :=
  ∀ rest, dropSequences false (coloured.toList ++ rest) = plain.toList ++ dropSequences false rest

namespace Decorates

variable {a b a' b' : String}

theorem of_isPlain (h : IsPlain a) : Decorates a a := by
  intro rest
  rw [IsPlain] at h
  generalize a.toList = cs at h ⊢
  induction cs with
  | nil => rfl
  | cons c cs ih =>
    obtain ⟨hc, hcs⟩ := not_or.mp (mt List.mem_cons.mpr h)
    simp [dropSequences, Ne.symm hc, ih hcs]

theorem append (ha : Decorates a a') (hb : Decorates b b') : Decorates (a ++ b) (a' ++ b') := by
  intro rest
  rw [String.toList_append, String.toList_append, List.append_assoc, ha, hb, List.append_assoc]

theorem sequence {number : String} (h : 'm' ∉ number.toList) :
    Decorates (Colour.sequence number) "" := by
  intro rest
  have hopen : 'm' ∉ '[' :: number.toList := by simpa using h
  have hlist : (Colour.sequence number).toList ++ rest =
      Colour.escape :: (('[' :: number.toList) ++ 'm' :: rest) := by
    simp [Colour.sequence]
  rw [hlist, dropSequences, if_neg (by decide), if_pos (by simp), dropSequences_open hopen]
  rfl

theorem paint (colour : Colour) (h : IsPlain a) :
    Decorates (Style.paint ⟨true⟩ colour a) (Style.paint ⟨false⟩ colour a) := by
  have hnumber : 'm' ∉ colour.number.toList := by cases colour <;> decide
  have hreset : 'm' ∉ "0".toList := by decide
  have hpainted := ((sequence hnumber).append (of_isPlain h)).append (sequence hreset)
  rwa [String.empty_append, String.append_empty] at hpainted

theorem intercalate {sep : String} (hsep : IsPlain sep) {xs ys : List String}
    (h : List.Forall₂ Decorates xs ys) : Decorates (sep.intercalate xs) (sep.intercalate ys) := by
  induction h with
  | nil =>
    rw [String.intercalate_nil]
    exact .of_isPlain (by decide)
  | @cons x y xs ys hfirst hrest ih =>
    cases hrest with
    | nil =>
      exact hfirst
    | cons =>
      rw [String.intercalate_cons_cons, String.intercalate_cons_cons]
      exact (hfirst.append (.of_isPlain hsep)).append ih

theorem uncoloured_eq (h : Decorates a b) : uncoloured a = b := by
  have hall := h []
  rw [List.append_nil, dropSequences, List.append_nil] at hall
  rw [uncoloured, hall, String.ofList_toList]

end Decorates

end Text

open Text

/-! ### Reports in colour -/

namespace Diagnostic

variable {d : Diagnostic} {ds : List Diagnostic} {lines : List String} {source : String}

/-- None of the texts of a diagnostic that are printed has a control sequence in it. -/
structure Plain (d : Diagnostic) : Prop where
  code : IsPlain d.code
  message : IsPlain d.message
  file : IsPlain d.span.file
  notes : ∀ note ∈ d.notes, IsPlain note
  hints : ∀ hint ∈ d.hints, IsPlain hint

theorem isPlain_span {span : Span} (h : IsPlain span.file) : IsPlain span.text := by
  have hpos (p : Position) : IsPlain p.text :=
    .append (.append (isPlain_int _) (by decide)) (isPlain_int _)
  have hfirst : IsPlain (span.file ++ ":" ++ span.start.text) :=
    .append (.append h (by decide)) (hpos _)
  rw [Span.text]
  split
  · exact .append (.append hfirst (by decide)) (hpos _)
  · exact hfirst

theorem isPlain_carets (span : Span) (line : String) : IsPlain (carets span line) := by
  have hrow (n m : Nat) : IsPlain (blanks n ++ String.ofList (List.replicate m '^')) := by
    simp [IsPlain, blanks, Colour.escape]
  exact hrow _ _

theorem trimEnd_isPrefix (cs : List Char) : trimEnd cs <+: cs := List.rdropWhile_prefix isBlank cs

theorem snippet_decorates (hlines : ∀ line ∈ lines, IsPlain line) :
    List.Forall₂ Decorates (d.snippet ⟨true⟩ lines) (d.snippet ⟨false⟩ lines) := by
  rw [snippet, snippet]
  split
  · have hline : IsPlain (lines.getD (d.span.start.line.toNat - 1) "") := by
      rw [List.getD_eq_getElem?_getD]
      cases hget : lines[d.span.start.line.toNat - 1]? with
      | none => exact (by decide : IsPlain "")
      | some line => exact hlines line (List.mem_of_getElem? hget)
    have hshown : IsPlain (String.ofList
        (trimEnd (lines.getD (d.span.start.line.toNat - 1) "").toList)) := by
      rw [IsPlain, String.toList_ofList]
      exact fun h => hline ((trimEnd_isPrefix _).subset h)
    have hgutter (n : Nat) : Decorates (blanks n ++ " " ++ Style.paint ⟨true⟩ .blue "|")
        (blanks n ++ " " ++ Style.paint ⟨false⟩ .blue "|") := by
      refine .append (.of_isPlain ?_) (.paint _ (by decide))
      simp [IsPlain, blanks, Colour.escape]
    have hspace : Decorates " " " " := .of_isPlain (by decide)
    refine .cons (hgutter _) (.cons ?_ (.cons ?_ (.cons (hgutter _) .nil)))
    · exact ((((Decorates.paint _ (isPlain_int _)).append hspace).append
        (.paint _ (by decide))).append hspace).append (.of_isPlain hshown)
    · exact ((hgutter _).append hspace).append (.paint _ (isPlain_carets _ _))
  · exact .nil

theorem rows_decorate (hd : d.Plain) (hlines : ∀ line ∈ lines, IsPlain line) :
    List.Forall₂ Decorates (d.rows ⟨true⟩ lines) (d.rows ⟨false⟩ lines) := by
  have hadvice {texts : List String} (h : ∀ text ∈ texts, IsPlain text) (colour : Colour)
      {sign : String} (hsign : IsPlain sign) :
      List.Forall₂ Decorates
        (texts.map fun text => "   " ++ Style.paint ⟨true⟩ colour sign ++ " " ++ text)
        (texts.map fun text => "   " ++ Style.paint ⟨false⟩ colour sign ++ " " ++ text) := by
    rw [List.forall₂_map_left_iff, List.forall₂_map_right_iff, List.forall₂_same]
    exact fun text htext => ((Decorates.append (.of_isPlain (by decide)) (.paint _ hsign)).append
      (.of_isPlain (by decide))).append (.of_isPlain (h text htext))
  have hseverity : IsPlain (d.severity.text ++ "[" ++ d.code ++ "]") := by
    refine .append (.append (.append ?_ (by decide)) hd.code) (by decide)
    cases d.severity <;> decide
  refine .cons ?_ (.cons ?_ ?_)
  · exact ((Decorates.paint _ hseverity).append (.of_isPlain (by decide))).append
      (.paint _ hd.message)
  · exact ((Decorates.append (.of_isPlain (by decide)) (.paint _ (by decide))).append
      (.of_isPlain (by decide))).append (.of_isPlain (isPlain_span hd.file))
  · exact List.rel_append (List.rel_append (snippet_decorates hlines)
      (hadvice hd.notes _ (by decide))) (hadvice hd.hints _ (by decide))

theorem tally_decorates (ds : List Diagnostic) :
    List.Forall₂ Decorates (tally ⟨true⟩ ds) (tally ⟨false⟩ ds) := by
  have hpart {word : String} (hword : IsPlain word) (n : Nat) :
      IsPlain (toString n ++ " " ++ word) :=
    .append (.append (isPlain_int n) (by decide)) hword
  rw [tally, tally]
  refine List.rel_append ?_ ?_
  · dsimp only
    split
    · exact .nil
    · exact .cons (.paint _ (hpart (by decide) _)) .nil
  · dsimp only
    split
    · exact .nil
    · exact .cons (.paint _ (hpart (by decide) _)) .nil

theorem isPlain_of_mem_sourceLines (h : IsPlain source) : ∀ line ∈ sourceLines source,
    IsPlain line := by
  intro line hline
  obtain ⟨cs, hcs, rfl⟩ := List.mem_map.mp hline
  rw [IsPlain, String.toList_ofList]
  intro hc
  have hjoin : ['\n'].intercalate (source.toList.splitOn '\n') = source.toList :=
    List.intercalate_splitOn '\n'
  refine h ?_
  rw [← hjoin]
  exact mem_intercalate hcs hc

/-- **Colour is decoration.**  Where no text that is printed has a control sequence of its own, the
coloured report without its control sequences is the plain one. -/
theorem report_uncoloured (hsource : IsPlain source) (hds : ∀ d ∈ ds, d.Plain) :
    uncoloured (report ⟨true⟩ source ds) = report ⟨false⟩ source ds := by
  have hparts : List.Forall₂ Decorates
      (ds.map fun d => "\n".intercalate (d.rows ⟨true⟩ (sourceLines source)))
      (ds.map fun d => "\n".intercalate (d.rows ⟨false⟩ (sourceLines source))) := by
    rw [List.forall₂_map_left_iff, List.forall₂_map_right_iff, List.forall₂_same]
    exact fun d hd => .intercalate (by decide)
      (rows_decorate (hds d hd) (isPlain_of_mem_sourceLines hsource))
  rw [report, report]
  split
  · rfl
  · refine Decorates.uncoloured_eq (.append (.append (.intercalate (by decide) hparts)
      (.of_isPlain (by decide))) ?_)
    have htally := tally_decorates ds
    generalize tally ⟨true⟩ ds = words, tally ⟨false⟩ ds = words' at htally
    cases htally with
    | nil => exact .of_isPlain (by decide)
    | cons hword hwords =>
      exact ((Decorates.of_isPlain (by decide)).append (.intercalate (by decide)
        (.cons hword hwords))).append (.of_isPlain (by decide))

/-- A warning with a note and a hint. -/
theorem report_uncoloured_warning :
    IsPlain "let x = 1" ∧
    (⟨"W0101", "unused", .dummy, .warning, ["n"], ["h"], []⟩ : Diagnostic).Plain ∧
    uncoloured (report ⟨true⟩ "let x = 1" [⟨"W0101", "unused", .dummy, .warning, ["n"], ["h"], []⟩]) =
      report ⟨false⟩ "let x = 1" [⟨"W0101", "unused", .dummy, .warning, ["n"], ["h"], []⟩] := by
  have hplain : (⟨"W0101", "unused", .dummy, .warning, ["n"], ["h"], []⟩ : Diagnostic).Plain :=
    ⟨by decide, by decide, by decide, by decide, by decide⟩
  exact ⟨by decide, hplain, report_uncoloured (by decide) (List.forall_mem_singleton.mpr hplain)⟩

/-! ### Rows that line up -/

def barColumn (row : String) : Nat := row.toList.idxOf '|'

/-- The row of a line of the source shows its characters from the second column behind the bar on.
The bars of the other rows, and the carets under the characters of a span, stand `shift` columns
further right.  Between bar and carets are blanks. -/
structure Points (shift : Nat) (span : Span) (line above shown marks below : String) : Prop where
  bars : ∀ row ∈ [above, marks, below], barColumn row = barColumn shown + shift
  shows : ∀ k < (trimEnd line.toList).length,
    shown.toList[barColumn shown + 2 + k]? = line.toList[k]?
  carets : ∀ i, marks.toList[i]? = some '^' ↔ ∃ k : Nat, span.start.column ≤ k + 1 ∧
    k + 1 ≤ span.stop.column ∧ i = barColumn shown + 2 + k + shift
  blanks : ∀ i c, barColumn marks < i → marks.toList[i]? = some c → c = ' ' ∨ c = '^'

theorem barColumn_eq {front : String} (h : '|' ∉ front.toList) (back : String) :
    barColumn (front ++ "|" ++ back) = front.length := by
  have hlist : (front ++ "|" ++ back).toList = front.toList ++ '|' :: back.toList := by simp
  rw [barColumn, hlist, List.idxOf_append_of_notMem h, List.idxOf_cons_self, Nat.add_zero,
    String.length_toList]

theorem getElem?_append_replicate {front : List Char} {c : Char} (h : c ∉ front) (n i : Nat) :
    (front ++ List.replicate n c)[i]? = some c ↔ front.length ≤ i ∧ i < front.length + n := by
  rw [List.getElem?_append]
  split
  · next hi =>
    rw [iff_false_intro (not_and_of_not_left _ (Nat.not_le.mpr hi)), iff_false]
    exact fun hget => h (List.mem_of_getElem? hget)
  · next hi =>
    rw [List.getElem?_replicate]
    split <;> simp <;> omega

/-- The carets under a part of one line. -/
theorem carets_of_le {span : Span} {line : String} (hone : span.stop.line = span.start.line)
    (hfirst : 1 ≤ span.start.column) (hle : span.start.column ≤ span.stop.column)
    (hlast : span.stop.column ≤ line.length) :
    carets span line = blanks (span.start.column - 1).toNat ++
      String.ofList (List.replicate (span.stop.column - span.start.column + 1).toNat '^') := by
  have hmultiline : span.isMultiline = false := by simp [Span.isMultiline, hone]
  rw [carets, hmultiline]
  exact congrArg₂ (fun n m => blanks n ++ String.ofList (List.replicate m '^'))
    (by omega) (by simp only [Bool.false_eq_true, if_false]; omega)

/-- Where the gutter of the other rows is wider than that of the source, all that stands behind it
is shifted. -/
theorem points_of_rows {shift : Nat} {span : Span} {line number gutter : String}
    (hnumber : '|' ∉ number.toList) (hgutter : ∀ c ∈ gutter.toList, c = ' ')
    (hwidth : gutter.length = number.length + shift) (hone : span.stop.line = span.start.line)
    (hfirst : 1 ≤ span.start.column) (hle : span.start.column ≤ span.stop.column)
    (hlast : span.stop.column ≤ (trimEnd line.toList).length) :
    Points shift span line (gutter ++ "|" ++ "")
      (number ++ "|" ++ (" " ++ String.ofList (trimEnd line.toList)))
      (gutter ++ "|" ++ (" " ++ carets span line)) (gutter ++ "|" ++ "") := by
  have hbar : '|' ∉ gutter.toList := fun h => absurd (hgutter _ h) (by decide)
  have hfront := trimEnd_isPrefix line.toList
  have hlength : (trimEnd line.toList).length ≤ line.length := by
    exact hfront.length_le
  have hmarks : (gutter ++ "|" ++ (" " ++ carets span line)).toList =
      gutter.toList ++ '|' :: ' ' :: (List.replicate (span.start.column - 1).toNat ' ' ++
        List.replicate (span.stop.column - span.start.column + 1).toNat '^') := by
    have hlast' : span.stop.column ≤ line.length := by omega
    simp [carets_of_le hone hfirst hle hlast', blanks]
  refine ⟨?_, fun k hk => ?_, fun i => ?_, fun i c hi hc => ?_⟩
  · -- the bars
    intro row hrow
    rw [barColumn_eq hnumber, ← hwidth]
    simp only [List.mem_cons, List.not_mem_nil, or_false] at hrow
    rcases hrow with rfl | rfl | rfl <;> exact barColumn_eq hbar _
  · -- the line behind its number
    have hlist : (number ++ "|" ++ (" " ++ String.ofList (trimEnd line.toList))).toList =
        (number.toList ++ ['|', ' ']) ++ trimEnd line.toList := by simp
    have hshown : (number.toList ++ ['|', ' ']).length = number.length + 2 := by
      rw [List.length_append, String.length_toList]
      rfl
    rw [barColumn_eq hnumber, hlist, ← hshown, List.getElem?_append_right (Nat.le_add_right ..),
      Nat.add_sub_cancel_left, List.getElem?_eq_getElem hk, hfront.getElem hk,
      ← List.getElem?_eq_getElem]
  · -- the columns of the carets
    have hnone : '^' ∉ gutter.toList ++
        '|' :: ' ' :: List.replicate (span.start.column - 1).toNat ' ' := by
      simpa using fun h => absurd (hgutter _ h) (by decide)
    have hcarets := getElem?_append_replicate hnone
      (span.stop.column - span.start.column + 1).toNat i
    rw [List.append_assoc, List.cons_append, List.cons_append, ← hmarks] at hcarets
    rw [hcarets, barColumn_eq hnumber]
    simp only [List.length_append, List.length_cons, List.length_replicate, String.length_toList]
    constructor
    · exact fun ⟨hi, hi'⟩ => ⟨i - (gutter.length + 2), by omega⟩
    · rintro ⟨k, hk, hk', rfl⟩
      omega
  · -- behind the bar there are only blanks and carets
    rw [barColumn_eq hbar, ← String.length_toList] at hi
    obtain ⟨k, rfl⟩ := Nat.exists_eq_add_of_lt hi
    rw [hmarks, Nat.add_assoc, List.getElem?_append_right (Nat.le_add_right ..),
      Nat.add_sub_cancel_left, List.getElem?_cons_succ] at hc
    have hmem := List.mem_of_getElem? hc
    simp only [List.mem_cons, List.mem_append, List.mem_replicate] at hmem
    rcases hmem with hc | ⟨-, hc⟩ | ⟨-, hc⟩
    · exact .inl hc
    · exact .inl hc
    · exact .inr hc

/-- **Carets stand one column too far to the right.**  For a diagnostic about a part of one line,
with the blanks at its end left out, the row of this line is followed by one with carets.  There is
one for each character of the part, in the column behind the one where the row above shows it, with
blanks between bar and carets.  The bar of the row of the source stands one column to the left of
those of the other rows. -/
theorem snippet_points {line : String} (hpos : 0 < d.span.start.line)
    (hline : lines[d.span.start.line.toNat - 1]? = some line)
    (hone : d.span.stop.line = d.span.start.line) (hfirst : 1 ≤ d.span.start.column)
    (hle : d.span.start.column ≤ d.span.stop.column)
    (hlast : d.span.stop.column ≤ (trimEnd line.toList).length) :
    ∃ above shown marks below, d.snippet ⟨false⟩ lines = [above, shown, marks, below] ∧
      [above, shown, marks, below] <:+: d.rows ⟨false⟩ lines ∧
      Points 1 d.span line above shown marks below := by
  have hinside : d.span.start.line ≤ lines.length := by
    have hlt := (List.getElem?_eq_some_iff.mp hline).1
    omega
  obtain ⟨digits, hdigits⟩ : ∃ digits, toString d.span.start.line = digits := ⟨_, rfl⟩
  obtain ⟨gutter, hgutter⟩ : ∃ gutter, blanks (digits.length + 1) ++ " " = gutter := ⟨_, rfl⟩
  have hsnippet : d.snippet ⟨false⟩ lines = [gutter ++ "|" ++ "",
      digits ++ " " ++ "|" ++ (" " ++ String.ofList (trimEnd line.toList)),
      gutter ++ "|" ++ (" " ++ carets d.span line), gutter ++ "|" ++ ""] := by
    rw [snippet, if_pos (by simp [hpos, hinside]), List.getD_eq_getElem?_getD, hline]
    simp only [hdigits, hgutter, Option.getD_some, String.append_assoc, String.append_empty]
    rfl
  refine ⟨_, _, _, _, hsnippet, ?_, points_of_rows ?_ ?_ ?_ hone hfirst hle hlast⟩
  · rw [← hsnippet, rows, List.append_assoc]
    exact (List.prefix_append ..).isInfix.trans
      ((List.suffix_cons ..).trans (List.suffix_cons ..)).isInfix
  · have hnone := not_mem_toString d.span.start.line (c := '|') (by decide) (by decide)
    simpa [hdigits] using hnone
  · simp [← hgutter, blanks]
  · -- The gutter has a column for a blank that the row with the number lacks.
    rw [← hgutter, String.length_append, String.length_append, blanks, String.length_ofList,
      List.length_replicate, Nat.add_right_comm]

/-- A diagnostic about three columns of the tenth line. -/
theorem snippet_points_tenth :
    ∃ above shown marks below,
      snippet ⟨false⟩ (List.replicate 9 "" ++ ["let x = 1 "]) ⟨"E", "", ⟨⟨10, 7⟩, ⟨10, 9⟩, ""⟩, .error,
        [], [], []⟩ = [above, shown, marks, below] ∧
      [above, shown, marks, below] <:+: rows ⟨false⟩ (List.replicate 9 "" ++ ["let x = 1 "])
        ⟨"E", "", ⟨⟨10, 7⟩, ⟨10, 9⟩, ""⟩, .error, [], [], []⟩ ∧
      Points 1 ⟨⟨10, 7⟩, ⟨10, 9⟩, ""⟩ "let x = 1 " above shown marks below :=
  snippet_points (by decide) rfl rfl (by decide) (by decide) (by decide)

/-- The bar and the caret of a snippet do not stand under the bar and the character above. -/
theorem snippet_misaligned :
    ¬ ∃ above shown marks below,
      snippet ⟨false⟩ (sourceLines "let x = 1")
        ⟨"E0301", "m", ⟨⟨1, 5⟩, ⟨1, 5⟩, "<unknown>"⟩, .error, [], [], []⟩ =
          [above, shown, marks, below] ∧
      Points 0 ⟨⟨1, 5⟩, ⟨1, 5⟩, "<unknown>"⟩ "let x = 1" above shown marks below := by
  rintro ⟨above, shown, marks, below, hrows, hpoints⟩
  have hsnippet : snippet ⟨false⟩ (sourceLines "let x = 1")
      ⟨"E0301", "m", ⟨⟨1, 5⟩, ⟨1, 5⟩, "<unknown>"⟩, .error, [], [], []⟩ =
        ["   |", "1 | let x = 1", "   |     ^", "   |"] := by
    decide +kernel
  rw [hsnippet] at hrows
  obtain ⟨rfl, rfl, rfl, rfl, -⟩ := by simpa using hrows
  exact absurd (hpoints.bars "   |" (List.mem_cons_self ..)) (by decide)

end Diagnostic

end Owl
