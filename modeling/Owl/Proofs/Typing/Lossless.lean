/-
Types are read back as they are written.

`Ty.ofText` walks down a text with a bound on the nesting.  `Ty.Parses` is the
same reading as rules without a bound: what a text is depends on what stands
between its first and its last bracket.  The rules give every text exactly one
type, the one that `ofText` reads (`Ty.parses_iff`), so the bound is never met.

`Ty.Spelled` says how a type is written, and the rules read what is written as
this very type (`Ty.Spelled.parses`).  The delicate rule is that for `Result`,
which looks for a comma outside of brackets: a written type is passed over whole,
whatever commas it has inside (`Ty.Spelled.skipped`).
-/
import Owl.Ty.Reading

namespace Owl.Ty

variable {cs : List Char} {t : Ty} {depth : Int}

/-- The names of the types that are not built from others. -/
def names : List String := ["Int", "Float", "String", "Bool", "Void", "Any", "Unknown"]

def isKnown : Ty → Bool
  | plain name => names.contains name
  | option inner => inner.isKnown
  | list element => element.isKnown
  | result ok err => ok.isKnown && err.isKnown

/-- The text is a name with its bracket, then something, then the closing bracket. -/
def Applied (opening : String) (inner cs : List Char) : Prop :=
  cs = opening.toList ++ inner ++ [']']

/-- None of the forms of a type: what stands here is `Unknown`. -/
structure Unreadable (cs : List Char) : Prop where
  not_primitive : primitive? (String.ofList cs) = none
  not_any : cs ≠ "Any".toList
  not_option : ∀ inner, ¬ Applied "Option[" inner cs
  not_list : ∀ inner, ¬ Applied "List[" inner cs
  no_comma : ∀ inner, Applied "Result[" inner cs → splitComma? 0 inner = none

/-- The type that a text stands for. -/
inductive Parses : List Char → Ty → Prop
  | primitive {cs : List Char} {t : Ty} :
    primitive? (String.ofList (Text.trim cs)) = some t → Parses cs t
  | any {cs : List Char} : Text.trim cs = "Any".toList → Parses cs any
  | option {cs inner : List Char} {t : Ty} :
    Applied "Option[" inner (Text.trim cs) → Parses inner t → Parses cs (.option t)
  | list {cs inner : List Char} {t : Ty} :
    Applied "List[" inner (Text.trim cs) → Parses inner t → Parses cs (.list t)
  | result {cs inner ok err : List Char} {t e : Ty} :
    Applied "Result[" inner (Text.trim cs) → splitComma? 0 inner = some (ok, err) →
      Parses ok t → Parses err e → Parses cs (.result t e)
  | unreadable {cs : List Char} : Unreadable (Text.trim cs) → Parses cs unknown

/-! ### Blanks -/

theorem length_trim_le (cs : List Char) : (Text.trim cs).length ≤ cs.length := by
  rw [Text.trim, Text.trimEnd, List.length_reverse]
  calc ((cs.dropWhile Text.isBlank).reverse.dropWhile Text.isBlank).length
      ≤ (cs.dropWhile Text.isBlank).reverse.length := (List.dropWhile_sublist _).length_le
    _ = (cs.dropWhile Text.isBlank).length := List.length_reverse
    _ ≤ cs.length := (List.dropWhile_sublist _).length_le

/-- Nothing is dropped from a text that has no blank at its ends. -/
theorem trim_eq_self {first last : Char} (hfirst : cs.head? = some first)
    (hlast : cs.getLast? = some last) (hf : Text.isBlank first = false)
    (hl : Text.isBlank last = false) : Text.trim cs = cs := by
  have hstart : cs.dropWhile Text.isBlank = cs := by
    obtain ⟨rest, rfl⟩ := List.head?_eq_some_iff.1 hfirst
    rw [List.dropWhile_cons_of_neg (by simp [hf])]
  obtain ⟨front, rfl⟩ := List.getLast?_eq_some_iff.1 hlast
  rw [Text.trim, hstart, Text.trimEnd, List.reverse_concat,
    List.dropWhile_cons_of_neg (by simp [hl]), ← List.reverse_concat, List.reverse_reverse]

theorem trim_blank_cons (cs : List Char) : Text.trim (' ' :: cs) = Text.trim cs := by
  rw [Text.trim, List.dropWhile_cons_of_pos (by decide), Text.trim]

/-! ### Names with brackets -/

section Applied

variable {opening : String} {cs inner : List Char}

theorem between?_eq_some_iff (hopening : opening.toList.getLast? = some '[') :
    between? opening cs = some inner ↔ Applied opening inner cs := by
  constructor
  · intro h
    rw [between?] at h
    split at h
    · next hends =>
      obtain ⟨hstart, hend⟩ := Bool.and_eq_true_iff.1 hends
      obtain ⟨rest, rfl⟩ := List.isPrefixOf_iff_prefix.1 hstart
      have hrest : (opening.toList ++ rest).drop opening.length = rest := by
        rw [← String.length_toList, List.drop_left]
      rw [hrest] at h
      -- The closing bracket is not the opening one, so it stands behind it.
      have hlast : rest.getLast? = some ']' := by
        rw [List.getLast?_append, hopening, beq_iff_eq] at hend
        cases hc : rest.getLast? with
        | none => simp [hc] at hend
        | some c => simpa [hc] using hend
      obtain ⟨front, rfl⟩ := List.getLast?_eq_some_iff.1 hlast
      rw [List.dropLast_concat, Option.some.injEq] at h
      rw [Applied, h, List.append_assoc]
    · cases h
  · intro h
    have hstart : opening.toList.isPrefixOf cs = true := by
      rw [List.isPrefixOf_iff_prefix, h, List.append_assoc]
      exact List.prefix_append _ _
    have hend : cs.getLast? = some ']' := by rw [h, List.getLast?_concat]
    have hrest : cs.drop opening.length = inner ++ [']'] := by
      rw [h, ← String.length_toList, List.append_assoc, List.drop_left]
    simp [between?, hstart, hend, hrest]

theorem between?_eq_none (hopening : opening.toList.getLast? = some '[')
    (h : ∀ inner, ¬ Applied opening inner cs) : between? opening cs = none := by
  rw [Option.eq_none_iff_forall_ne_some]
  intro inner hinner
  exact h inner ((between?_eq_some_iff hopening).1 hinner)

theorem Applied.length (h : Applied opening inner cs) : inner.length < cs.length := by
  rw [h]
  simp
  omega

theorem Applied.getLast? (h : Applied opening inner cs) : cs.getLast? = some ']' := by
  rw [h, List.getLast?_concat]

theorem Applied.head? (h : Applied opening inner cs)
    (hopening : opening.toList.getLast? = some '[') : cs.head? = opening.toList.head? := by
  rw [h, List.append_assoc, List.head?_append]
  cases hcs : opening.toList with
  | nil => simp [hcs] at hopening
  | cons c rest => rfl

/-- A name with brackets behind it is not one of the names. -/
theorem Applied.not_primitive (h : Applied opening inner cs)
    (hopening : opening.toList.getLast? = some '[') : primitive? (String.ofList cs) = none := by
  have hmem : '[' ∈ (String.ofList cs).toList := by
    rw [String.toList_ofList, h]
    exact List.mem_append_left _ (List.mem_append_left _ (List.mem_of_getLast? hopening))
  rw [primitive?.eq_def]
  split
  all_goals first | rfl | exact absurd hmem (by simp_all)

theorem Applied.not_any (h : Applied opening inner cs) : (cs == "Any".toList) = false := by
  rw [beq_eq_false_iff_ne]
  rintro rfl
  exact absurd h.getLast? (by decide)

/-- Names that start differently are not applied in one text. -/
theorem Applied.between?_other (h : Applied opening inner cs) (other : String)
    (hopening : opening.toList.getLast? = some '[') (hother : other.toList.getLast? = some '[')
    (hhead : opening.toList.head? ≠ other.toList.head?) : between? other cs = none :=
  between?_eq_none hother fun _ h' =>
    hhead ((h.head? hopening).symm.trans (h'.head? hother))

end Applied

/-! ### The comma of a result -/

theorem splitComma?_eq_some {ok err : List Char} (h : splitComma? depth cs = some (ok, err)) :
    cs = ok ++ ',' :: err := by
  induction cs generalizing depth ok with
  | nil => simp [splitComma?] at h
  | cons c cs ih =>
    rw [splitComma?] at h
    split at h
    · next hcomma =>
      obtain ⟨hc, -⟩ := Bool.and_eq_true_iff.1 hcomma
      obtain rfl : c = ',' := beq_iff_eq.1 hc
      obtain ⟨rfl, rfl⟩ : [] = ok ∧ cs = err := by simpa using h
      rfl
    · obtain ⟨⟨ok', err'⟩, hrest, heq⟩ := Option.map_eq_some_iff.1 h
      obtain ⟨rfl, rfl⟩ : c :: ok' = ok ∧ err' = err := by simpa using heq
      rw [ih hrest, List.cons_append]

/-- The search for the comma goes over this text and is then at the second depth. -/
def Skipped (depth after : Int) (cs : List Char) : Prop :=
  ∀ rest, splitComma? depth (cs ++ rest) = (splitComma? after rest).map fun x => (cs ++ x.1, x.2)

theorem Skipped.append {between after : Int} {ds : List Char} (hcs : Skipped depth between cs)
    (hds : Skipped between after ds) : Skipped depth after (cs ++ ds) := by
  intro rest
  rw [List.append_assoc, hcs, hds, Option.map_map]
  simp [Function.comp_def]

/-- Every character but a comma outside of brackets is passed over. -/
theorem skipped_singleton (depth : Int) (c : Char) (h : c = ',' → depth ≠ 0) :
    Skipped depth (if c == '[' then depth + 1 else if c == ']' then depth - 1 else depth) [c] := by
  intro rest
  have hstop : (c == ',' && depth == 0) = false := by
    rw [Bool.and_eq_false_iff, beq_eq_false_iff_ne, beq_eq_false_iff_ne]
    by_cases hc : c = ','
    · exact .inr (h hc)
    · exact .inl hc
  rw [List.singleton_append, splitComma?, hstop, if_neg (by decide)]
  rfl

theorem skipped_open (depth : Int) : Skipped depth (depth + 1) ['['] :=
  skipped_singleton depth '[' (fun h => absurd h (by decide))

theorem skipped_close (depth : Int) : Skipped (depth + 1) depth [']'] := by
  have h := skipped_singleton (depth + 1) ']' (fun h => absurd h (by decide))
  rwa [if_neg (by decide), if_pos (by decide), Int.add_sub_cancel] at h

/-- A text without brackets is passed over if its commas do not count. -/
theorem skipped_of_no_bracket (hcomma : ',' ∈ cs → depth ≠ 0)
    (hopen : '[' ∉ cs) (hclose : ']' ∉ cs) : Skipped depth depth cs := by
  induction cs with
  | nil =>
    intro rest
    simp
  | cons c cs ih =>
    have hc : Skipped depth depth [c] := by
      have h := skipped_singleton depth c (fun hc => hcomma (by simp [hc]))
      rwa [if_neg (by grind), if_neg (by grind)] at h
    have hcs : Skipped depth depth cs := ih (by grind) (by grind) (by grind)
    exact hc.append hcs

/-! ### The rules -/

/-- The type that the rules give is the one that is read with a bound above the length. -/
theorem Parses.ofChars_eq (h : Parses cs t) {bound : Nat} (hbound : cs.length ≤ bound) :
    ofChars (bound + 1) cs = t := by
  have below {name : String} {inner cs : List Char} {bound : Nat}
      (happlied : Applied name inner (Text.trim cs)) (hbound : cs.length ≤ bound) :
      ∃ b, bound = b + 1 ∧ inner.length ≤ b := by
    have hinner := happlied.length
    have htrim := length_trim_le cs
    exact ⟨bound - 1, by omega, by omega⟩
  induction h generalizing bound with
  | primitive hprimitive => simp only [ofChars, hprimitive]
  | any hany =>
    have hnot : primitive? (String.ofList "Any".toList) = none := by decide
    simp only [ofChars, hany, hnot, beq_self_eq_true, if_true]
  | option happlied _ ih =>
    obtain ⟨bound, rfl, hinner⟩ := below happlied hbound
    have hnot := happlied.not_primitive (by decide)
    have hoption := (between?_eq_some_iff (by decide)).2 happlied
    rw [ofChars]
    simp only [hnot, happlied.not_any, hoption, ih hinner, Bool.false_eq_true, if_false]
  | list happlied _ ih =>
    obtain ⟨bound, rfl, hinner⟩ := below happlied hbound
    have hnot := happlied.not_primitive (by decide)
    have hoption := happlied.between?_other "Option[" (by decide) (by decide) (by decide)
    have hlist := (between?_eq_some_iff (by decide)).2 happlied
    rw [ofChars]
    simp only [hnot, happlied.not_any, hoption, hlist, ih hinner, Bool.false_eq_true, if_false]
  | result happlied hcomma _ _ ihok iherr =>
    obtain ⟨bound, rfl, hinner⟩ := below happlied hbound
    have hparts := congrArg List.length (splitComma?_eq_some hcomma)
    rw [List.length_append, List.length_cons] at hparts
    have hok := @ihok bound (by omega)
    have herr := @iherr bound (by omega)
    have hnot := happlied.not_primitive (by decide)
    have hoption := happlied.between?_other "Option[" (by decide) (by decide) (by decide)
    have hlist := happlied.between?_other "List[" (by decide) (by decide) (by decide)
    have hresult := (between?_eq_some_iff (by decide)).2 happlied
    rw [ofChars]
    simp only [hnot, happlied.not_any, hoption, hlist, hresult, hcomma, hok, herr,
      Bool.false_eq_true, if_false]
  | unreadable hnone =>
    have hnot := hnone.not_primitive
    have hany := beq_eq_false_iff_ne.2 hnone.not_any
    have hoption := between?_eq_none (by decide) hnone.not_option
    have hlist := between?_eq_none (by decide) hnone.not_list
    rw [ofChars]
    simp only [hnot, hany, hoption, hlist, Bool.false_eq_true, if_false]
    cases hresult : between? "Result[" (Text.trim _) with
    | none => rfl
    | some inner =>
      have hcomma := hnone.no_comma inner ((between?_eq_some_iff (by decide)).1 hresult)
      simp only [hcomma]

theorem exists_parses (cs : List Char) : ∃ t, Parses cs t := by
  induction hn : cs.length using Nat.strongRecOn generalizing cs with
  | ind n ih =>
    have inside {name : String} {inner : List Char} (happlied : Applied name inner (Text.trim cs))
        (part : List Char) (hpart : part.length ≤ inner.length) : ∃ t, Parses part t := by
      have hinner := happlied.length
      have htrim := length_trim_le cs
      exact ih part.length (by omega) part rfl
    cases hprimitive : primitive? (String.ofList (Text.trim cs)) with
    | some t => exact ⟨t, .primitive hprimitive⟩
    | none =>
      by_cases hany : Text.trim cs = "Any".toList
      · exact ⟨any, .any hany⟩
      by_cases hoption : ∃ inner, Applied "Option[" inner (Text.trim cs)
      · obtain ⟨inner, happlied⟩ := hoption
        obtain ⟨t, ht⟩ := inside happlied inner (Nat.le_refl _)
        exact ⟨.option t, .option happlied ht⟩
      by_cases hlist : ∃ inner, Applied "List[" inner (Text.trim cs)
      · obtain ⟨inner, happlied⟩ := hlist
        obtain ⟨t, ht⟩ := inside happlied inner (Nat.le_refl _)
        exact ⟨.list t, .list happlied ht⟩
      by_cases hresult : ∃ inner parts,
          Applied "Result[" inner (Text.trim cs) ∧ splitComma? 0 inner = some parts
      · obtain ⟨inner, ⟨ok, err⟩, happlied, hcomma⟩ := hresult
        have hparts := congrArg List.length (splitComma?_eq_some hcomma)
        rw [List.length_append, List.length_cons] at hparts
        obtain ⟨t, ht⟩ := inside happlied ok (by omega)
        obtain ⟨e, he⟩ := inside happlied err (by omega)
        exact ⟨.result t e, .result happlied hcomma ht he⟩
      refine ⟨unknown, .unreadable ⟨hprimitive, hany, fun inner h => hoption ⟨inner, h⟩,
        fun inner h => hlist ⟨inner, h⟩, fun inner h => ?_⟩⟩
      exact Option.eq_none_iff_forall_ne_some.2 fun parts hparts => hresult ⟨inner, parts, h, hparts⟩

/-- The rules give a text the type that is read from it, and no other. -/
theorem parses_iff {s : String} : Parses s.toList t ↔ t = ofText s := by
  have hread {u : Ty} (hu : Parses s.toList u) : ofText s = u :=
    hu.ofChars_eq (Nat.le_of_eq String.length_toList)
  constructor
  · intro ht
    exact (hread ht).symm
  · rintro rfl
    obtain ⟨u, hu⟩ := exists_parses s.toList
    exact (hread hu).symm ▸ hu

/-! ### Reading what is written -/

/-- The rules do not see blanks at the ends. -/
theorem Parses.of_trim_eq {ds : List Char} (h : Parses cs t) (htrim : Text.trim ds = Text.trim cs) :
    Parses ds t := by
  cases h with
  | primitive hprimitive => exact .primitive (htrim ▸ hprimitive)
  | any hany => exact .any (htrim ▸ hany)
  | option happlied ht => exact .option (htrim ▸ happlied) ht
  | list happlied ht => exact .list (htrim ▸ happlied) ht
  | result happlied hcomma ht he => exact .result (htrim ▸ happlied) hcomma ht he
  | unreadable hnone => exact .unreadable (htrim ▸ hnone)

/-- What is read is built from the named types. -/
theorem Parses.isKnown (h : Parses cs t) : t.isKnown = true := by
  induction h with
  | primitive hprimitive =>
    rw [primitive?.eq_def] at hprimitive
    split at hprimitive
    all_goals first | cases hprimitive; decide | cases hprimitive
  | any => decide
  | option _ _ ih => exact ih
  | list _ _ ih => exact ih
  | result _ _ _ _ ihok iherr => exact Bool.and_eq_true_iff.2 ⟨ihok, iherr⟩
  | unreadable => decide

/-- How a type is written: by a name, or by a name with types in brackets behind it. -/
inductive Spelled : List Char → Ty → Prop
  | name {name : String} {t : Ty} :
    (',' ∉ name.toList ∧ '[' ∉ name.toList ∧ ']' ∉ name.toList) → Parses name.toList t →
      Spelled name.toList t
  | option {cs : List Char} {t : Ty} :
    Spelled cs t → Spelled ("Option[".toList ++ cs ++ [']']) (.option t)
  | list {cs : List Char} {t : Ty} :
    Spelled cs t → Spelled ("List[".toList ++ cs ++ [']']) (.list t)
  | result {ok err : List Char} {t e : Ty} :
    Spelled ok t → Spelled err e →
      Spelled ("Result[".toList ++ (ok ++ ',' :: ' ' :: err) ++ [']']) (.result t e)

/-- A written type is passed over whole: its commas stand in its own brackets. -/
theorem Spelled.skipped (h : Spelled cs t) (hdepth : 0 ≤ depth) : Skipped depth depth cs := by
  have applied (name : String) {inner : List Char} {depth : Int}
      (hname : ',' ∉ name.toList ∧ '[' ∉ name.toList ∧ ']' ∉ name.toList)
      (hinner : Skipped (depth + 1) (depth + 1) inner) :
      Skipped depth depth (name.toList ++ ['['] ++ inner ++ [']']) :=
    ((skipped_of_no_bracket (fun hc => absurd hc hname.1) hname.2.1 hname.2.2).append
      (skipped_open depth)).append hinner |>.append (skipped_close depth)
  induction h generalizing depth with
  | name hname _ => exact skipped_of_no_bracket (fun hc => absurd hc hname.1) hname.2.1 hname.2.2
  | option _ ih => exact applied "Option" (by decide) (ih (by omega))
  | list _ ih => exact applied "List" (by decide) (ih (by omega))
  | result _ _ ihok iherr =>
    have hcomma : Skipped (depth + 1) (depth + 1) ", ".toList :=
      skipped_of_no_bracket (fun _ => by omega) (by decide) (by decide)
    have hinner := ((ihok (by omega)).append hcomma).append (iherr (by omega))
    simpa using applied "Result" (by decide) hinner

/-- A written type stands for the type that it is written for. -/
theorem Spelled.parses (h : Spelled cs t) : Parses cs t := by
  have written {opening : String} {first : Char} (inner : List Char)
      (hopening : opening.toList.getLast? = some '[')
      (hfirst : opening.toList.head? = some first) (hblank : Text.isBlank first = false) :
      Applied opening inner (Text.trim (opening.toList ++ inner ++ [']'])) := by
    have happlied : Applied opening inner (opening.toList ++ inner ++ [']']) := rfl
    rwa [trim_eq_self ((happlied.head? hopening).trans hfirst) happlied.getLast? hblank (by decide)]
  induction h with
  | name _ hparses => exact hparses
  | option _ ih => exact .option (written _ rfl rfl (by decide)) ih
  | list _ ih => exact .list (written _ rfl rfl (by decide)) ih
  | @result ok err _ _ hok _ ihok iherr =>
    have hcomma : splitComma? 0 (ok ++ ',' :: ' ' :: err) = some (ok, ' ' :: err) := by
      rw [hok.skipped (by decide)]
      simp [splitComma?]
    exact .result (written _ rfl rfl (by decide)) hcomma ihok (iherr.of_trim_eq (trim_blank_cons _))

theorem name_parses {name : String} (h : name ∈ names) : Parses name.toList (plain name) := by
  have hprimitive : ∀ name ∈ names, name ≠ "Any" → name ≠ "Unknown" →
      primitive? (String.ofList (Text.trim name.toList)) = some (plain name) := by decide
  by_cases hany : name = "Any"
  · subst hany
    exact .any (by decide)
  by_cases hunknown : name = "Unknown"
  · subst hunknown
    have hlast {opening : String} {inner : List Char} :
        ¬ Applied opening inner (Text.trim "Unknown".toList) := fun happlied =>
      absurd happlied.getLast? (by decide)
    exact .unreadable ⟨by decide, by decide, fun _ => hlast, fun _ => hlast,
      fun _ happlied => absurd happlied hlast⟩
  exact .primitive (hprimitive name h hany hunknown)

theorem text_spelled (h : t.isKnown = true) : Spelled t.text.toList t := by
  induction t with
  | plain name =>
    have hname : ∀ s ∈ names, ',' ∉ s.toList ∧ '[' ∉ s.toList ∧ ']' ∉ s.toList := by decide
    have hmem : name ∈ names := List.contains_iff_mem.1 h
    exact .name (hname name hmem) (name_parses hmem)
  | option inner ih => simpa [text] using Spelled.option (ih h)
  | list element ih => simpa [text] using Spelled.list (ih h)
  | result ok err ihok iherr =>
    obtain ⟨hok, herr⟩ := Bool.and_eq_true_iff.1 h
    simpa [text] using Spelled.result (ihok hok) (iherr herr)

/-- Types are read back as they are written, every text has exactly one type, and what is written
for the type of a text has this type again. -/
theorem ofText_text (t : Ty) (s : String) :
    (t.isKnown = true → ofText t.text = t) ∧ (∀ u, Parses s.toList u ↔ u = ofText s) ∧
      ofText (ofText s).text = ofText s := by
  have hback {u : Ty} (hu : u.isKnown = true) : ofText u.text = u :=
    (parses_iff.1 (text_spelled hu).parses).symm
  exact ⟨hback, fun _ => parses_iff, hback (parses_iff.2 rfl).isKnown⟩

/-- A result in the place of a value and one in the place of an error, read back. -/
theorem ofText_text_nested_results :
    (result (result int (list any)) (option (result unknown void))).isKnown = true ∧
      ofText "Result[Result[Int, List[Any]], Option[Result[Unknown, Void]]]" =
        result (result int (list any)) (option (result unknown void)) := by
  have hknown : (result (result int (list any)) (option (result unknown void))).isKnown = true := by
    decide
  exact ⟨hknown, (ofText_text (result (result int (list any)) (option (result unknown void))) "").1
    hknown⟩

end Owl.Ty
