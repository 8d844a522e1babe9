/-
Renumbering temporaries in a text.

The name of a temporary is a stem and a number.  `renumber k` adds `k` to the
number behind every stem.  Stems and numbers are made of word characters, so a
text may be cut at any other character and renumbered part by part.
-/
import Owl.Proofs.Wordwise

namespace Owl

open Text

variable {c : Char} {cs : List Char} {s : String}

/-! ### Stems and numbers -/

def stems : List (List Char) :=
  [['_', '_', 't', 'r', 'y', '_'], ['_', '_', 'm', 'a', 't', 'c', 'h', '_']]

def holdsStem : List Char → Bool
  | [] => false
  | c :: cs => stems.any (·.isPrefixOf (c :: cs)) || holdsStem cs

/-- The stem at the front of a text and the digits behind it, if there are any. -/
def numbered? (cs : List Char) : Option (List Char × List Char) :=
  match stems.find? (·.isPrefixOf cs) with
  | none => none
  | some stem =>
    let digits := (cs.drop stem.length).takeWhile Char.isDigit
    if digits.isEmpty then none else some (stem, digits)

/-- Adds `k` to the number behind every stem; `skip` counts the characters of a name that are still
to be passed over. -/
def renumberFrom (k : Nat) : Nat → List Char → List Char
  | _, [] => []
  | skip + 1, _ :: cs => renumberFrom k skip cs
  | 0, c :: cs =>
    match numbered? (c :: cs) with
    | none => c :: renumberFrom k 0 cs
    | some (stem, digits) =>
      stem ++ Nat.toDigits 10 (Nat.ofDigitChars 10 digits 0 + k) ++
        renumberFrom k (stem.length + digits.length - 1) cs

/-- A text with `k` added to the number behind every stem. -/
def renumber (k : Nat) (s : String) : String := String.ofList (renumberFrom k 0 s.toList)

theorem stems_wordChars : ∀ stem ∈ stems, stem ≠ [] ∧ stem.all isWordChar = true := by
  decide +kernel

theorem isWordChar_of_isDigit (h : c.isDigit) : isWordChar c = true := by
  rw [isWordChar, isAlphanumeric, isNumeric_of_isDigit h]
  simp

theorem isDigit_of_not_wordChar (h : isWordChar c = false) : c.isDigit = false := by
  by_contra hdigit
  rw [isWordChar_of_isDigit (by simpa using hdigit)] at h
  cases h

theorem numbered?_eq_some {stem digits : List Char} (h : numbered? cs = some (stem, digits)) :
    stem ∈ stems ∧ (∃ rest, cs = stem ++ digits ++ rest) ∧ ∀ c ∈ digits, c.isDigit := by
  rw [numbered?] at h
  split at h
  · cases h
  · next found hfound =>
    have hstarts := List.find?_some hfound
    rw [List.isPrefixOf_iff_prefix] at hstarts
    obtain ⟨rest, rfl⟩ := hstarts
    rw [List.drop_left] at h
    dsimp only at h
    split at h
    · cases h
    · obtain ⟨rfl, rfl⟩ := Prod.mk.inj (Option.some.inj h)
      refine ⟨List.mem_of_find?_eq_some hfound, ⟨rest.dropWhile Char.isDigit, ?_⟩, ?_⟩
      · rw [List.append_assoc, List.takeWhile_append_dropWhile]
      · exact fun c hc => List.mem_takeWhile_imp hc

/-! ### Cutting -/

theorem takeWhile_cut {p : Char → Bool} (h : p c = false) (a b : List Char) :
    (a ++ c :: b).takeWhile p = a.takeWhile p := by
  induction a with
  | nil => simp [h]
  | cons x a ih =>
    rw [List.cons_append, List.takeWhile_cons, List.takeWhile_cons, ih]

theorem numbered?_cut (hc : isWordChar c = false) (a b : List Char) :
    numbered? (a ++ c :: b) = numbered? a := by
  have hfind : stems.find? (·.isPrefixOf (a ++ c :: b)) = stems.find? (·.isPrefixOf a) := by
    have hstarts : ∀ stem ∈ stems, stem.isPrefixOf (a ++ c :: b) = stem.isPrefixOf a :=
      fun stem hstem =>
        isPrefixOf_cut (not_mem_of_wordChars hc (stems_wordChars stem hstem).2) a b
    rw [stems, List.forall_mem_cons, List.forall_mem_singleton] at hstarts
    rw [stems, List.find?_cons, List.find?_cons, List.find?_cons, List.find?_cons, hstarts.1,
      hstarts.2]
    rfl
  rw [numbered?, numbered?, hfind]
  split
  · rfl
  · next stem hstem =>
    have hstarts := List.find?_some hstem
    rw [List.isPrefixOf_iff_prefix] at hstarts
    rw [List.drop_append_of_le_length hstarts.length_le, takeWhile_cut (isDigit_of_not_wordChar hc)]

theorem renumberFrom_of_none (h : numbered? (c :: cs) = none) (k : Nat) :
    renumberFrom k 0 (c :: cs) = c :: renumberFrom k 0 cs := by
  rw [renumberFrom, h]

theorem renumberFrom_of_some {stem digits : List Char}
    (h : numbered? (c :: cs) = some (stem, digits)) (k : Nat) :
    renumberFrom k 0 (c :: cs) =
      stem ++ Nat.toDigits 10 (Nat.ofDigitChars 10 digits 0 + k) ++
        renumberFrom k (stem.length + digits.length - 1) cs := by
  rw [renumberFrom, h]

theorem renumberFrom_cut (hc : isWordChar c = false) (k : Nat) (a b : List Char) (skip : Nat)
    (h : skip ≤ a.length) :
    renumberFrom k skip (a ++ c :: b) = renumberFrom k skip a ++ c :: renumberFrom k 0 b := by
  -- The characters to be passed over are in front of the cut.
  induction a generalizing skip with
  | nil =>
    obtain rfl := Nat.le_zero.mp h
    exact renumberFrom_of_none (numbered?_cut hc [] b) k
  | cons x a ih =>
    cases skip with
    | succ skip => exact ih skip (Nat.le_of_succ_le_succ h)
    | zero =>
      have hcut := numbered?_cut hc (x :: a) b
      cases hnumber : numbered? (x :: a) with
      | none =>
        rw [hnumber, List.cons_append] at hcut
        rw [renumberFrom_of_none hnumber, List.cons_append, renumberFrom_of_none hcut,
          ih 0 (Nat.zero_le _), List.cons_append]
      | some found =>
        obtain ⟨stem, digits⟩ := found
        obtain ⟨-, ⟨rest, hrest⟩, -⟩ := numbered?_eq_some hnumber
        have hlength := congrArg List.length hrest
        rw [List.length_cons, List.length_append, List.length_append] at hlength
        rw [hnumber, List.cons_append] at hcut
        rw [renumberFrom_of_some hnumber, List.cons_append, renumberFrom_of_some hcut,
          ih _ (by omega), List.append_assoc _ (renumberFrom k _ a)]

/-! ### Texts without stems -/

theorem numbered?_of_holdsStem (h : holdsStem (c :: cs) = false) : numbered? (c :: cs) = none := by
  rw [holdsStem, Bool.or_eq_false_iff, List.any_eq_false] at h
  rw [numbered?, List.find?_eq_none.mpr fun stem hstem => h.1 stem hstem]

theorem renumberFrom_of_holdsStem (k : Nat) (h : holdsStem cs = false) :
    renumberFrom k 0 cs = cs := by
  induction cs with
  | nil => rfl
  | cons c cs ih =>
    have hrest : holdsStem cs = false := (Bool.or_eq_false_iff.mp h).2
    rw [renumberFrom_of_none (numbered?_of_holdsStem h), ih hrest]

theorem holdsStem_stem {stem : List Char} (hstem : stem ∈ stems) (rest : List Char) :
    holdsStem (stem ++ rest) = true := by
  obtain ⟨c, cs, hcs⟩ := List.exists_cons_of_ne_nil (stems_wordChars stem hstem).1
  have hstarts : stem.isPrefixOf (stem ++ rest) = true :=
    List.isPrefixOf_iff_prefix.mpr (List.prefix_append stem rest)
  rw [hcs, List.cons_append, holdsStem, ← List.cons_append, ← hcs, Bool.or_eq_true]
  exact .inl (List.any_eq_true.mpr ⟨stem, hstem, hstarts⟩)

/-- Renumbering changes only texts that hold a stem, and these go on holding one. -/
theorem renumberFrom_eq_or (k : Nat) (cs : List Char) :
    renumberFrom k 0 cs = cs ∨ holdsStem (renumberFrom k 0 cs) = true := by
  induction cs with
  | nil => exact .inl rfl
  | cons c cs ih =>
    cases hnumber : numbered? (c :: cs) with
    | some found =>
      obtain ⟨stem, digits⟩ := found
      refine .inr ?_
      rw [renumberFrom_of_some hnumber, List.append_assoc]
      exact holdsStem_stem (numbered?_eq_some hnumber).1 _
    | none =>
      rw [renumberFrom_of_none hnumber]
      rcases ih with ih | ih
      · exact .inl (by rw [ih])
      · refine .inr ?_
        rw [holdsStem, ih, Bool.or_true]

/-- A text without a stem is what only itself is renumbered to. -/
theorem renumberFrom_eq_iff (k : Nat) {word : List Char} (h : holdsStem word = false)
    (cs : List Char) : renumberFrom k 0 cs = word ↔ cs = word := by
  constructor
  · intro heq
    rcases renumberFrom_eq_or k cs with hsame | hholds
    · rw [← hsame, heq]
    · rw [heq, h] at hholds
      cases hholds
  · rintro rfl
    exact renumberFrom_of_holdsStem k h

theorem renumberFrom_wordChars (k skip : Nat) (h : cs.all isWordChar = true) :
    (renumberFrom k skip cs).all isWordChar = true := by
  induction cs generalizing skip with
  | nil => rfl
  | cons c cs ih =>
    have hcs : isWordChar c = true ∧ cs.all isWordChar = true := by
      rwa [List.all_cons, Bool.and_eq_true] at h
    cases skip with
    | succ skip => exact ih skip hcs.2
    | zero =>
      cases hnumber : numbered? (c :: cs) with
      | none =>
        rw [renumberFrom_of_none hnumber, List.all_cons, hcs.1, ih 0 hcs.2, Bool.and_self]
      | some found =>
        obtain ⟨stem, digits⟩ := found
        have hstem := (stems_wordChars stem (numbered?_eq_some hnumber).1).2
        have hdigits : (Nat.toDigits 10 (Nat.ofDigitChars 10 digits 0 + k)).all isWordChar = true :=
          List.all_eq_true.mpr fun c hc => isWordChar_of_isDigit
            (Nat.isDigit_of_mem_toDigits (Nat.succ_pos 9) (Nat.le_refl 10) hc)
        rw [renumberFrom_of_some hnumber, List.all_append, List.all_append, hstem, hdigits,
          ih _ hcs.2]
        rfl

/-! ### Names of temporaries -/

theorem renumberFrom_skip (k : Nat) (cs : List Char) : renumberFrom k cs.length cs = [] := by
  induction cs with
  | nil => rfl
  | cons c cs ih => exact ih

theorem takeWhile_toDigits (n : Nat) :
    (Nat.toDigits 10 n).takeWhile Char.isDigit = Nat.toDigits 10 n :=
  List.takeWhile_eq_self_iff.mpr fun _ hc =>
    Nat.isDigit_of_mem_toDigits (Nat.succ_pos 9) (Nat.le_refl 10) hc

/-- A stem that is found at the front of all texts that start with it. -/
theorem renumberFrom_name {stem : List Char}
    (hfind : ∀ rest, stems.find? (·.isPrefixOf (stem ++ rest)) = some stem) (k n : Nat) :
    renumberFrom k 0 (stem ++ Nat.toDigits 10 n) = stem ++ Nat.toDigits 10 (n + k) := by
  have hnumber : numbered? (stem ++ Nat.toDigits 10 n) = some (stem, Nat.toDigits 10 n) := by
    rw [numbered?, hfind]
    show (if ((stem ++ _).drop stem.length |>.takeWhile Char.isDigit).isEmpty then none else _) = _
    rw [List.drop_left, takeWhile_toDigits, if_neg]
    simp [Nat.toDigits_ne_nil]
  obtain ⟨c, cs, hcs⟩ : ∃ c cs, stem ++ Nat.toDigits 10 n = c :: cs :=
    List.exists_cons_of_ne_nil (by simp [Nat.toDigits_ne_nil])
  have hlength := congrArg List.length hcs
  rw [List.length_append, List.length_cons] at hlength
  rw [hcs] at hnumber ⊢
  rw [renumberFrom_of_some hnumber, hlength, Nat.add_sub_cancel, renumberFrom_skip,
    List.append_nil, Nat.ofDigitChars_toDigits (by decide) (by decide)]

/-! ### Texts put together -/

theorem toList_renumber (k : Nat) (s : String) :
    (renumber k s).toList = renumberFrom k 0 s.toList :=
  String.toList_ofList

/-- Renumbering goes word by word. -/
theorem renumber_wordwise (k : Nat) : Wordwise (renumber k) :=
  .of_cut rfl fun a _ b hc => renumberFrom_cut hc k a b 0 (Nat.zero_le _)

/-- A text without a stem stays as it is. -/
theorem renumber_of_holdsStem (k : Nat) (h : holdsStem s.toList = false) : renumber k s = s := by
  rw [renumber, renumberFrom_of_holdsStem k h, String.ofList_toList]

theorem renumber_name {stem : String}
    (hfind : ∀ rest, stems.find? (·.isPrefixOf (stem.toList ++ rest)) = some stem.toList)
    (k n : Nat) : renumber k (stem ++ toString n) = stem ++ toString (n + k) := by
  rw [← String.toList_inj, toList_renumber, String.toList_append, String.toList_append,
    Nat.toString_eq_repr, Nat.toString_eq_repr, Nat.toList_repr, Nat.toList_repr,
    renumberFrom_name hfind]

theorem renumber_tryName (k n : Nat) :
    renumber k ("__try_" ++ toString n) = "__try_" ++ toString (n + k) :=
  renumber_name (fun _ => rfl) k n

theorem renumber_matchName (k n : Nat) :
    renumber k ("__match_" ++ toString n) = "__match_" ++ toString (n + k) :=
  renumber_name (fun _ => rfl) k n

theorem renumber_eq_iff (k : Nat) {word : String} (h : holdsStem word.toList = false)
    (s : String) : renumber k s = word ↔ s = word := by
  rw [← String.toList_inj, toList_renumber, renumberFrom_eq_iff k h, String.toList_inj]

/-- Renumbering goes through the replacement of a whole word that holds no stem. -/
theorem renumber_replaceWord {word : String} (hne : word ≠ "")
    (hword : word.toList.all isWordChar = true) (hstem : holdsStem word.toList = false) (k : Nat)
    (new text : String) :
    renumber k (replaceWord word new text) =
      replaceWord word (renumber k new) (renumber k text) := by
  have hreplace := fun new => replaceWord_wordwise hne hword new
  refine ((hreplace new).comp (renumber_wordwise k)).ext
    ((renumber_wordwise k).comp (hreplace (renumber k new))) fun w _ hw => ?_
  have hw' : (renumber k w).toList.all isWordChar = true := by
    rw [toList_renumber]
    exact renumberFrom_wordChars k 0 hw
  rw [replaceWord_word hne hword new hw, replaceWord_word hne hword _ hw']
  by_cases heq : w = word
  · rw [if_pos heq, if_pos ((renumber_eq_iff k hstem w).mpr heq)]
  · rw [if_neg heq, if_neg (mt (renumber_eq_iff k hstem w).mp heq)]

def leads (s : String) : Bool := !holdsStem s.toList && isShut s

/-- A text that holds no stem and starts with no word character may stand behind. -/
def trails (s : String) : Bool := !holdsStem s.toList && isApart s

theorem renumber_lead (k : Nat) (h : leads s = true) (b : String) :
    renumber k (s ++ b) = s ++ renumber k b := by
  rw [leads, Bool.and_eq_true, Bool.not_eq_true'] at h
  rw [(renumber_wordwise k).shut_append _ _ h.2, renumber_of_holdsStem k h.1]

theorem renumber_trail (k : Nat) (a : String) (h : trails s = true) :
    renumber k (a ++ s) = renumber k a ++ s := by
  rw [trails, Bool.and_eq_true, Bool.not_eq_true'] at h
  rw [(renumber_wordwise k).append_apart _ _ h.2, renumber_of_holdsStem k h.1]

/-- A text that may stand in front and behind, and is not empty, separates. -/
def separates (s : String) : Bool := leads s && trails s && s != ""

theorem of_separates (h : separates s = true) :
    startsBlank s = true ∧ endsBlank s = true ∧ holdsStem s.toList = false := by
  simp only [separates, leads, trails, Bool.and_eq_true, Bool.not_eq_true'] at h
  obtain ⟨⟨⟨hstem, hshut⟩, -, hapart⟩, hne⟩ := h
  exact ⟨Bool.and_eq_true_iff.mpr ⟨hapart, hne⟩, Bool.and_eq_true_iff.mpr ⟨hshut, hne⟩, hstem⟩

theorem renumber_between (k : Nat) (a : String) (h : separates s = true) (b : String) :
    renumber k (a ++ s ++ b) = renumber k a ++ s ++ renumber k b := by
  obtain ⟨hstarts, hends, hstem⟩ := of_separates h
  exact (renumber_wordwise k).joined a hstarts hends (renumber_of_holdsStem k hstem) b

theorem renumber_intercalate (k : Nat) (h : separates s = true) (parts : List String) :
    renumber k (s.intercalate parts) = s.intercalate (parts.map (renumber k)) := by
  obtain ⟨hstarts, hends, hstem⟩ := of_separates h
  exact (renumber_wordwise k).map_intercalate hstarts hends (renumber_of_holdsStem k hstem) parts

end Owl
