/-
Where the text of an expression stands.

The text of an expression has the texts of its parts in it, and the code of a program
has those of its values.  No word character stands next to a part, so that replacing
a word in the whole replaces it in the part.  This is what becomes of a part that
stands in an arm: the name that the pattern binds is replaced in it, once for each
arm around it, from the inside out.
-/
import Owl.Proofs.Guards
import Owl.Proofs.Renumbering.Emission
import Owl.Proofs.Visiting.Coverage
import Owl.Proofs.Wordwise

namespace Owl

open EmitM Text

variable {a s : String} {index n n' : Nat} {codes : List String} {gs : List Guard}

/-! ### Arms around a text -/

/-- What arms make of a text that stands in them, from the inside out: the name that the pattern of
an arm binds stands for a part of the variable of its match, which has a number. -/
def rebind (binds : List (Pattern × Nat)) (s : String) : String :=
  binds.foldl (fun s bind => bind.1.bind ("__match_" ++ toString bind.2) s) s

theorem rebind_wordwise {binds : List (Pattern × Nat)}
    (h : ∀ bind ∈ binds, ∀ w ∈ bind.1.words, w.Formed) : Wordwise (rebind binds) := by
  induction binds with
  | nil => exact .id
  | cons bind binds ih =>
    rw [List.forall_mem_cons] at h
    exact (Pattern.bind_wordwise h.1 _).comp (ih h.2)

theorem rebind_of_not_mem {binds : List (Pattern × Nat)}
    (h : ∀ bind ∈ binds, ∀ w ∈ bind.1.words, w.Formed) {word : String}
    (hword : word.toList.all isWordChar = true) (hbinds : ∀ bind ∈ binds, word ∉ bind.1.texts) :
    rebind binds word = word := by
  induction binds with
  | nil => rfl
  | cons bind binds ih =>
    rw [List.forall_mem_cons] at h hbinds
    rw [rebind, List.foldl_cons, Pattern.bind_of_not_mem h.1 hword hbinds.1]
    exact ih h.2 hbinds.2

theorem rebind_append (binds : List (Pattern × Nat)) (pattern : Pattern) (n : Nat) (s : String) :
    rebind (binds ++ [(pattern, n)]) s =
      pattern.bind ("__match_" ++ toString n) (rebind binds s) := by
  rw [rebind, List.foldl_append]
  rfl

/-! ### Standing in a text -/

/-- A text stands in another one, and no word character is next to it. -/
def StandsIn (part whole : String) : Prop :=
  ∃ front back, whole = front ++ part ++ back ∧ isShut front = true ∧ isApart back = true

namespace StandsIn

variable {part whole : String}

theorem refl (s : String) : StandsIn s s := ⟨"", "", by simp, rfl, rfl⟩

theorem trans {b c : String} (h : StandsIn a b) (h' : StandsIn b c) : StandsIn a c := by
  obtain ⟨front, back, rfl, hfront, hback⟩ := h
  obtain ⟨front', back', rfl, hfront', hback'⟩ := h'
  refine ⟨front' ++ front, back ++ back', ?_, isShut_append hfront' hfront,
    isApart_append hback hback'⟩
  simp only [String.append_assoc]

/-- What changes a text changes what stands in it. -/
theorem map {f : String → String} (hf : Wordwise f) (h : StandsIn part whole) :
    StandsIn (f part) (f whole) := by
  obtain ⟨front, back, rfl, hfront, hback⟩ := h
  refine ⟨f front, f back, ?_, hf.isShut hfront, hf.isApart hback⟩
  rw [hf.append_apart _ _ hback, hf.shut_append _ _ hfront]

theorem intercalate {sep : String} (hshut : endsBlank sep = true)
    (hapart : startsBlank sep = true) {values : List String} (h : a ∈ values) :
    StandsIn a (sep.intercalate values) := by
  induction values with
  | nil => cases h
  | cons b rest ih =>
    rcases List.mem_cons.mp h with rfl | h
    · cases rest with
      | nil => simpa using StandsIn.refl a
      | cons c rest =>
        refine ⟨"", sep ++ sep.intercalate (c :: rest), ?_, rfl, isApart_of_startsBlank hapart _⟩
        simp [String.append_assoc]
    · cases rest with
      | nil => cases h
      | cons c rest =>
        refine (ih h).trans ⟨b ++ sep, "", ?_, isShut_of_endsBlank b hshut, rfl⟩
        simp [String.append_assoc]

end StandsIn

theorem Piece.of_map_eq_ok {x : Except Nat String} {f : String → String} (h : x.map f = .ok s) :
    ∃ r, x = .ok r ∧ s = f r := by
  cases x with
  | error index => cases h
  | ok r =>
    cases h
    exact ⟨r, rfl, rfl⟩

/-- An argument stands in a template that has a place for it.  Where a template starts with a text,
there is something in front of the argument. -/
theorem Piece.exists_fill {args : List String} (ha : args[index]? = some a)
    {template : List Piece} (hspaced : spaced template = true) (hmem : arg index ∈ template)
    (hfill : fill args template = .ok s) :
    ∃ front back, s = front ++ a ++ back ∧ isShut front = true ∧ isApart back = true ∧
      (startsApart template = true → front ≠ "") := by
  induction template generalizing s with
  | nil => cases hmem
  | cons piece rest ih =>
    cases piece with
    | text t =>
      have hrest : arg index ∈ rest := by simpa using hmem
      obtain ⟨hleads, hspaced⟩ : leads t = true ∧ spaced rest = true := by
        cases rest with
        | nil => cases hrest
        | cons next rest => simpa [spaced] using hspaced
      rw [fill_text] at hfill
      obtain ⟨r, hr, rfl⟩ := of_map_eq_ok hfill
      obtain ⟨front, back, rfl, hfront, hback, -⟩ := ih hspaced hrest hr
      refine ⟨t ++ front, back, by simp only [String.append_assoc], ?_, hback, fun hstarts => ?_⟩
      · rw [leads, Bool.and_eq_true] at hleads
        exact isShut_append hleads.2 hfront
      · rw [startsApart, Bool.and_eq_true, bne_iff_ne] at hstarts
        exact fun hempty => hstarts.2 (String.append_eq_empty_iff.mp hempty).1
    | arg other =>
      rw [spaced, Bool.and_eq_true] at hspaced
      cases hother : args[other]? with
      | none =>
        rw [fill, hother] at hfill
        cases hfill
      | some b =>
        rw [fill_arg hother] at hfill
        obtain ⟨r, hr, rfl⟩ := of_map_eq_ok hfill
        by_cases hindex : index = other
        · obtain rfl : a = b := by
            rw [hindex, hother] at ha
            exact (Option.some.inj ha).symm
          exact ⟨"", r, by simp, rfl, isApart_fill hspaced.1 hr, by simp [startsApart]⟩
        · have hrest : arg index ∈ rest := by simpa [hindex] using hmem
          obtain ⟨front, back, rfl, hfront, hback, hne⟩ := ih hspaced.2 hrest hr
          have hblank : endsBlank front = true := by simp [endsBlank, hfront, hne hspaced.1]
          have hshut := isShut_of_endsBlank b hblank
          exact ⟨b ++ front, back, by simp only [String.append_assoc], hshut, hback,
            by simp [startsApart]⟩

theorem StandsIn.fill {args : List String} (ha : args[index]? = some a) {template : List Piece}
    (hspaced : Piece.spaced template = true) (hmem : Piece.arg index ∈ template)
    (hfill : Piece.fill args template = .ok s) : StandsIn a s := by
  obtain ⟨front, back, hs, hfront, hback, -⟩ := Piece.exists_fill ha hspaced hmem hfill
  exact ⟨front, back, hs, hfront, hback⟩

/-- A template has places for as many arguments as the function has parameters. -/
theorem Builtin.arg_mem_template : ∀ b ∈ Builtin.all, ∀ index < b.params.length,
    Piece.arg index ∈ b.template := by
  decide +kernel

/-! ### Spots -/

/-- Where the text of a spot stands in the text of an expression that has the patterns `around` it:
the patterns between the two have been bound in it. -/
inductive Shown (around : List Pattern) (spot : Spot) (code : String) : Prop
  | intro (binds : List (Pattern × Nat)) (own : String)
    (haround : spot.around = binds.map Prod.fst ++ around)
    (hbinds : ∀ bind ∈ binds, ∀ w ∈ bind.1.words, w.Formed)
    (hwords : ∀ w ∈ spot.expr.words, w.Formed) (hown : spot.expr.Spells own)
    (hstands : StandsIn (rebind binds own) code)

namespace Shown

variable {around : List Pattern} {spot : Spot} {code whole : String}

theorem trans (h : Shown around spot code) (h' : StandsIn code whole) :
    Shown around spot whole := by
  obtain ⟨binds, own, haround, hbinds, hwords, hown, hstands⟩ := h
  exact ⟨binds, own, haround, hbinds, hwords, hown, hstands.trans h'⟩

theorem here {dropped : Bool} {e : Expr} (h : emitExpr e n = (.ok code, n'))
    (hwords : ∀ w ∈ e.words, w.Formed) : Shown around ⟨around, dropped, e⟩ code :=
  ⟨[], code, rfl, List.forall_mem_nil _, hwords, emitExpr_spells h, .refl code⟩

/-- Around an arm one pattern less is left. -/
theorem bind {pattern : Pattern} (h : Shown (pattern :: around) spot code)
    (hpattern : ∀ w ∈ pattern.words, w.Formed) (n : Nat) :
    Shown around spot (pattern.bind ("__match_" ++ toString n) code) := by
  obtain ⟨binds, own, haround, hbinds, hwords, hown, hstands⟩ := h
  refine ⟨binds ++ [(pattern, n)], own, ?_, ?_, hwords, hown, ?_⟩
  · simpa using haround
  · rw [List.forall_mem_append, List.forall_mem_singleton]
    exact ⟨hbinds, hpattern⟩
  · rw [rebind_append]
    exact hstands.map (Pattern.bind_wordwise hpattern _)

end Shown

/-! ### Arguments without a place -/

mutual

/-- Whatever stands in an argument without a place has none. -/
theorem Expr.dropped_of_spots {around : List Pattern} {spot : Spot} : ∀ e : Expr,
    spot ∈ e.spots around true → spot.dropped = true
  | .int .. | .float .. | .string .. | .bool .. | .name .. | .stmt _ | .unknown => by
    simp +contextual
  | .binary left _ right _ => by
    simp only [Expr.spots, List.mem_cons, List.mem_append]
    rintro (rfl | h | h)
    · rfl
    · exact left.dropped_of_spots h
    · exact right.dropped_of_spots h
  | .unary _ operand _ | .field operand _ _ | .propagate operand _ => by
    simp only [Expr.spots, List.mem_cons]
    rintro (rfl | h)
    · rfl
    · exact operand.dropped_of_spots h
  | .call callee args _ => by
    have hcallee : spot ∈ callee.spots around true → spot.dropped = true := callee.dropped_of_spots
    have hargs : ∀ room?, spot ∈ exprsSpots around true room? args → spot.dropped = true :=
      fun room? => exprsSpots_dropped room? args
    cases callee with
    | name name span? =>
      simp only [Expr.spots, List.mem_cons]
      rintro (rfl | h)
      · rfl
      · exact hargs _ h
    | _ =>
      simp only [Expr.spots, List.mem_cons, List.mem_append]
      rintro (rfl | h | h)
      · rfl
      · exact hcallee (by simpa using h)
      · exact hargs _ h
  | .list elements _ => by
    simp only [Expr.spots, List.mem_cons]
    rintro (rfl | h)
    · rfl
    · exact exprsSpots_dropped none elements h
  | .matching subject arms _ => by
    simp only [Expr.spots, List.mem_cons, List.mem_append]
    rintro (rfl | h | h)
    · rfl
    · exact subject.dropped_of_spots h
    · exact armsSpots_dropped arms h

theorem exprsSpots_dropped {around : List Pattern} {spot : Spot} (room? : Option Nat) :
    ∀ es : List Expr, spot ∈ exprsSpots around true room? es → spot.dropped = true
  | [] => nofun
  | e :: es => by
    simp only [exprsSpots, Bool.true_or, List.mem_append]
    rintro (h | h)
    · exact e.dropped_of_spots h
    · exact exprsSpots_dropped _ es h

theorem armsSpots_dropped {around : List Pattern} {spot : Spot} :
    ∀ arms : List Arm, spot ∈ armsSpots around true arms → spot.dropped = true
  | [] => nofun
  | ⟨_, body, _⟩ :: arms => by
    simp only [armsSpots, List.mem_append]
    rintro (h | h)
    · exact body.dropped_of_spots h
    · exact armsSpots_dropped arms h

end

/-! ### Expressions -/

theorem commaList_stands (h : a ∈ codes) : StandsIn a (commaList codes) :=
  .intercalate (by decide) (by decide) h

theorem emitExprs_spells {es : List Expr} (h : emitExprs es n = (.ok codes, n')) :
    List.Forall₂ Expr.Spells es codes := by
  induction es generalizing codes n with
  | nil =>
    cases h
    exact .nil
  | cons e es ih =>
    rw [emitExprs] at h
    obtain ⟨first, l, hfirst, h⟩ := of_bind_eq_ok h
    obtain ⟨rest, l', hrest, h⟩ := of_bind_eq_ok h
    cases h
    exact .cons ⟨n, l, hfirst⟩ (ih hrest)

/-- An argument for which there is a place stands in the text of a call by name. -/
theorem StandsIn.namedCallCode {name : String} {code : String}
    (h : namedCallCode name codes n = (.ok code, n')) (ha : codes[index]? = some a)
    (hroom : ∀ b, Builtin.find? name = some b → index < b.params.length) : StandsIn a code := by
  obtain ⟨htemplate, hplain, -⟩ := of_namedCallCode h
  cases hfind : Builtin.find? name with
  | some b =>
    have hb := List.mem_of_find?_eq_some hfind
    exact .fill ha (Builtin.all_spaced b hb) (Builtin.arg_mem_template b hb index (hroom b hfind))
      (htemplate b hfind)
  | none =>
    rw [hplain hfind]
    refine (commaList_stands (List.mem_of_getElem? ha)).trans
      ⟨name ++ "(", ")", rfl, isShut_of_endsBlank _ (by decide), by decide⟩

/-- The first spot of an expression is the expression itself. -/
theorem Shown.gives {spot : Spot} {around : List Pattern} {dropped : Bool} {e : Expr}
    {inner : List Spot} (hwords : ∀ w ∈ e.words, w.Formed)
    (h : Gives (emitExpr e) fun code => spot ∈ inner → Shown around spot code) :
    Gives (emitExpr e) fun code =>
      spot ∈ ⟨around, dropped, e⟩ :: inner → Shown around spot code := by
  intro n n' code hrun hspot
  rcases List.mem_cons.mp hspot with rfl | hspot
  · exact .here hrun hwords
  · exact h n n' code hrun hspot

mutual

/-- The text of a spot that has a place stands in the text of the expression. -/
theorem emitExpr_shown {spot : Spot} (hkept : spot.dropped = false) : ∀ (e : Expr)
    (around : List Pattern) (dropped : Bool), (∀ w ∈ e.words, w.Formed) →
    Gives (emitExpr e) fun code => spot ∈ e.spots around dropped → Shown around spot code
  | .int .., _, _, hwords | .float .., _, _, hwords | .string .., _, _, hwords
  | .bool .., _, _, hwords | .name .., _, _, hwords | .stmt _, _, _, hwords
  | .unknown, _, _, hwords => by
    rw [Expr.spots]
    exact Shown.gives hwords fun _ _ _ _ hspot => nomatch hspot
  | .binary left op right _, around, dropped, hwords => by
    rw [Expr.spots]
    refine Shown.gives hwords ?_
    simp only [Expr.words, List.forall_mem_append, List.forall_mem_singleton] at hwords
    refine (emitExpr_shown hkept left around dropped hwords.1.1).bind fun l hleft => ?_
    refine (emitExpr_shown hkept right around dropped hwords.2).bind fun r hright =>
      .pure fun hspot => ?_
    rcases List.mem_append.mp hspot with hspot | hspot
    · refine (hleft hspot).trans
        ⟨"(", " " ++ (op ++ " " ++ r ++ ")"), ?_, by decide, isApart_of_startsBlank (by decide) _⟩
      simp only [String.append_assoc]
    · exact (hright hspot).trans
        ⟨"(" ++ l ++ " " ++ op ++ " ", ")", rfl, isShut_of_endsBlank _ (by decide), by decide⟩
  | .unary op operand _, around, dropped, hwords => by
    rw [Expr.spots]
    refine Shown.gives hwords ?_
    simp only [Expr.words, List.forall_mem_append, List.forall_mem_singleton] at hwords
    have hop : endsBlank op = true := by
      have hseparates := hwords.1.operator
      simp only [separates, leads, Bool.and_eq_true] at hseparates
      simp [endsBlank, hseparates.1.1.2, hseparates.2]
    exact (emitExpr_shown hkept operand around dropped hwords.2).bind fun code hcode =>
      .pure fun hspot =>
        (hcode hspot).trans ⟨"(" ++ op, ")", rfl, isShut_of_endsBlank _ hop, by decide⟩
  | .call callee args _, around, dropped, hwords => by
    have hwhole := hwords
    simp only [Expr.words, List.forall_mem_append] at hwords
    -- A call of a name is written by another rule than any other call.
    by_cases hname : ∃ name span?, callee = .name name span?
    · obtain ⟨name, span?, rfl⟩ := hname
      rw [Expr.spots]
      refine Shown.gives hwhole ?_
      rw [emitExpr]
      let room? := (Builtin.find? name).map (·.params.length)
      refine (emitExprs_shown hkept args around dropped room? hwords.2).bind
        fun codes hcodes n n' code h hspot => ?_
      obtain ⟨index, a, ha, hroom, hshown⟩ := hcodes hspot
      exact hshown.trans (.namedCallCode h ha fun b hb => hroom _ (by simp [room?, hb]))
    · rw [Expr.spots_call_of_ne hname]
      refine Shown.gives hwhole ?_
      rw [emitExpr_call_of_ne hname]
      refine (emitExpr_shown hkept callee around dropped hwords.1).bind fun inner hcallee => ?_
      refine (emitExprs_shown hkept args around dropped none hwords.2).bind fun codes hcodes =>
        .pure fun hspot => ?_
      rcases List.mem_append.mp hspot with hspot | hspot
      · refine (hcallee hspot).trans ⟨"", "(" ++ (commaList codes ++ ")"), ?_, by decide,
          isApart_of_startsBlank (by decide) _⟩
        simp [String.append_assoc]
      · obtain ⟨index, a, ha, -, hshown⟩ := hcodes hspot
        exact (hshown.trans (commaList_stands (List.mem_of_getElem? ha))).trans
          ⟨inner ++ "(", ")", rfl, isShut_of_endsBlank _ (by decide), by decide⟩
  | .field object field _, around, dropped, hwords => by
    rw [Expr.spots]
    refine Shown.gives hwords ?_
    simp only [Expr.words, List.forall_mem_append] at hwords
    refine (emitExpr_shown hkept object around dropped hwords.1).bind fun code hcode =>
      .pure fun hspot => ?_
    refine (hcode hspot).trans
      ⟨"", "." ++ field, ?_, by decide, isApart_of_startsBlank (by decide) _⟩
    simp [String.append_assoc]
  | .propagate operand _, around, dropped, hwords => by
    rw [Expr.spots]
    refine Shown.gives hwords ?_
    simp only [Expr.words, List.forall_mem_append] at hwords
    exact (emitExpr_shown hkept operand around dropped hwords.1).bind fun code hcode =>
      .pure fun hspot => (hcode hspot).trans ⟨"(", ").value", rfl, by decide, by decide⟩
  | .list elements _, around, dropped, hwords => by
    rw [Expr.spots]
    refine Shown.gives hwords ?_
    simp only [Expr.words, List.forall_mem_append] at hwords
    refine (emitExprs_shown hkept elements around dropped none hwords.1.2).bind fun codes hcodes =>
      .pure fun hspot => ?_
    obtain ⟨index, a, ha, -, hshown⟩ := hcodes hspot
    exact (hshown.trans (commaList_stands (List.mem_of_getElem? ha))).trans
      ⟨"[", "]", rfl, by decide, by decide⟩
  | .matching subject arms _, around, dropped, hwords => by
    rw [Expr.spots]
    refine Shown.gives hwords ?_
    simp only [Expr.words, List.forall_mem_append] at hwords
    refine (emitExpr_shown hkept subject around dropped hwords.1.1.1.2).bind fun inner hsubject => ?_
    refine (Gives.any fresh).bind fun number _ => ?_
    refine (emitArms_shown hkept number arms around dropped hwords.1.2).bind fun choice harms =>
      .pure fun hspot => ?_
    rcases List.mem_append.mp hspot with hspot | hspot
    · exact (hsubject hspot).trans ⟨_, "))", rfl, isShut_of_endsBlank _ (by decide), by decide⟩
    · refine (harms hspot).trans
        ⟨"((lambda " ++ ("__match_" ++ toString number) ++ ": ", ")(" ++ (inner ++ "))"), ?_,
          isShut_of_endsBlank _ (by decide), isApart_of_startsBlank (by decide) _⟩
      simp only [String.append_assoc]

theorem emitExprs_shown {spot : Spot} (hkept : spot.dropped = false) : ∀ (es : List Expr)
    (around : List Pattern) (dropped : Bool) (room? : Option Nat),
    (∀ w ∈ exprsWords es, w.Formed) → Gives (emitExprs es) fun codes =>
      spot ∈ exprsSpots around dropped room? es →
      ∃ (index : Nat) (a : String), codes[index]? = some a ∧ (∀ room ∈ room?, index < room) ∧
        Shown around spot a
  | [], _, _, _, _ => .pure fun hspot => nomatch hspot
  | e :: es, around, dropped, room?, hwords => by
    simp only [exprsWords, List.forall_mem_append] at hwords
    refine (emitExpr_shown hkept e around (dropped || room? == some 0) hwords.1).bind
      fun first hfirst => ?_
    refine (emitExprs_shown hkept es around dropped (room?.map (· - 1)) hwords.2).bind
      fun rest hrest => .pure fun hspot => ?_
    rcases List.mem_append.mp hspot with hspot | hspot
    · refine ⟨0, first, rfl, fun room hroom => ?_, hfirst hspot⟩
      -- Without room nothing of the argument has a place.
      by_contra hnone
      obtain rfl : room = 0 := by omega
      have hfull : (dropped || room? == some 0) = true := by
        rw [Option.mem_def.mp hroom]
        simp
      rw [hfull] at hspot
      rw [e.dropped_of_spots hspot] at hkept
      cases hkept
    · obtain ⟨index, a, ha, hroom, hshown⟩ := hrest hspot
      refine ⟨index + 1, a, ha, fun room hmem => ?_, hshown⟩
      have hlt := hroom (room - 1) (by rw [Option.mem_def.mp hmem]; rfl)
      omega

theorem emitArms_shown {spot : Spot} (hkept : spot.dropped = false) (number : Nat) :
    ∀ (arms : List Arm) (around : List Pattern) (dropped : Bool),
    (∀ w ∈ armsWords arms, w.Formed) → Gives (emitArms ("__match_" ++ toString number) arms)
      fun code => spot ∈ armsSpots around dropped arms → Shown around spot code
  | [], _, _, _ => .pure fun hspot => nomatch hspot
  | [⟨pattern, body, _⟩], around, dropped, hwords => by
    simp only [armsWords, List.forall_mem_append] at hwords
    simp only [armsSpots, List.append_nil, emitArms]
    exact (emitExpr_shown hkept body (pattern :: around) dropped hwords.1.2).bind fun inner hbody =>
      .pure fun hspot => (hbody hspot).bind hwords.1.1.1 number
  | ⟨pattern, body, _⟩ :: arm :: arms, around, dropped, hwords => by
    rw [armsWords, List.forall_mem_append, List.forall_mem_append, List.forall_mem_append] at hwords
    simp only [emitArms]
    refine (emitExpr_shown hkept body (pattern :: around) dropped hwords.1.2).bind
      fun inner hbody => ?_
    refine (emitArms_shown hkept number (arm :: arms) around dropped hwords.2).bind fun rest hrest =>
      .pure fun hspot => ?_
    rw [armsSpots, List.mem_append] at hspot
    rcases hspot with hspot | hspot
    · refine ((hbody hspot).bind hwords.1.1.1 number).trans
        ⟨"(", " if " ++ (pattern.test ("__match_" ++ toString number) ++ " else " ++ rest ++ ")"),
          ?_, by decide, isApart_of_startsBlank (by decide) _⟩
      simp only [String.append_assoc]
    · exact (hrest hspot).trans ⟨_, ")", rfl, isShut_of_endsBlank _ (by decide), by decide⟩

end

/-! ### Lines -/

mutual

/-- The values, conditions and collections of a statement. -/
@[simp] def Code.values : Code → List String
  | .assign _ value | .eval value | .ret (some value) => [value]
  | .ret none | .breakLoop | .continueLoop | .pass => []
  | .branch condition thenBody elseBody =>
    condition :: (blockValues thenBody ++ blockValues elseBody)
  | .whileLoop condition body => condition :: blockValues body
  | .forLoop _ collection body => collection :: blockValues body

/-- The values, conditions and collections of statements. -/
@[simp] def blockValues : List Code → List String
  | [] => []
  | s :: rest => s.values ++ blockValues rest

end

theorem blockValues_append (xs ys : List Code) :
    blockValues (xs ++ ys) = blockValues xs ++ blockValues ys := by
  induction xs with
  | nil => rfl
  | cons x xs ih => rw [List.cons_append, blockValues, blockValues, ih, List.append_assoc]

theorem blockValues_suite (body : List Code) :
    blockValues (Code.suite body) = blockValues body := by
  cases body with
  | nil => simp [Code.suite]
  | cons s rest => rfl

theorem blockValues_blockCode (use : Use) (body : List Code) :
    blockValues (use.blockCode body) = blockValues body := by
  cases use with
  | effect => rfl
  | value => exact blockValues_suite body

theorem StandsIn.line (depth : Nat) (s : String) : StandsIn s (Code.line depth s) := by
  refine ⟨String.ofList (List.replicate (4 * depth) ' '), "", by simp [Code.line], ?_, rfl⟩
  rw [isShut, String.toList_ofList]
  cases 4 * depth with
  | zero => rfl
  | succ n =>
    rw [List.replicate_succ', List.getLast?_concat]
    decide +kernel

mutual

theorem Code.lines_stand {value : String} : ∀ (s : Code) (depth : Nat), value ∈ s.values →
    ∃ line ∈ s.lines depth, StandsIn value line
  | .assign name value', depth, h => by
    obtain rfl : value = value' := by simpa using h
    refine ⟨_, List.mem_singleton_self _, .trans ?_ (.line depth _)⟩
    exact ⟨name ++ " = ", "", by simp, isShut_of_endsBlank _ (by decide), rfl⟩
  | .eval value', depth, h => by
    obtain rfl : value = value' := by simpa using h
    exact ⟨_, List.mem_singleton_self _, .line depth _⟩
  | .ret none, _, h | .breakLoop, _, h | .continueLoop, _, h | .pass, _, h => by simp at h
  | .ret (some value'), depth, h => by
    obtain rfl : value = value' := by simpa using h
    refine ⟨_, List.mem_singleton_self _, .trans ?_ (.line depth _)⟩
    exact ⟨"return ", "", by simp, by decide, rfl⟩
  | .branch condition thenBody elseBody, depth, h => by
    have hcondition : StandsIn condition (line depth ("if " ++ condition ++ ":")) :=
      .trans ⟨"if ", ":", rfl, by decide, by decide⟩ (.line depth _)
    have hthen : value ∈ blockValues thenBody →
        ∃ line ∈ blockLines (depth + 1) thenBody, StandsIn value line :=
      blockLines_stand thenBody (depth + 1)
    have helse : value ∈ blockValues elseBody →
        ∃ line ∈ blockLines (depth + 1) elseBody, StandsIn value line :=
      blockLines_stand elseBody (depth + 1)
    rw [values, List.mem_cons, List.mem_append] at h
    cases elseBody with
    | nil =>
      rw [lines]
      rcases h with rfl | h | h
      · exact ⟨_, List.mem_cons_self .., hcondition⟩
      · obtain ⟨line, hline, hstands⟩ := hthen h
        exact ⟨line, List.mem_cons_of_mem _ hline, hstands⟩
      · simp at h
    | cons s rest =>
      rw [lines]
      rcases h with rfl | h | h
      · exact ⟨_, List.mem_cons_self .., hcondition⟩
      · obtain ⟨line, hline, hstands⟩ := hthen h
        exact ⟨line, List.mem_cons_of_mem _ (List.mem_append_left _ hline), hstands⟩
      · obtain ⟨line, hline, hstands⟩ := helse h
        refine ⟨line, List.mem_cons_of_mem _ (List.mem_append_right _ ?_), hstands⟩
        exact List.mem_cons_of_mem _ (by rwa [blockLines] at hline)
  | .whileLoop condition body, depth, h => by
    rw [values, List.mem_cons] at h
    rw [lines]
    rcases h with rfl | h
    · exact ⟨_, List.mem_cons_self ..,
        .trans ⟨"while ", ":", rfl, by decide, by decide⟩ (.line depth _)⟩
    · obtain ⟨line, hline, hstands⟩ := blockLines_stand body (depth + 1) h
      exact ⟨line, List.mem_cons_of_mem _ hline, hstands⟩
  | .forLoop item collection body, depth, h => by
    rw [values, List.mem_cons] at h
    rw [lines]
    rcases h with rfl | h
    · exact ⟨_, List.mem_cons_self ..,
        .trans ⟨_, ":", rfl, isShut_of_endsBlank _ (by decide), by decide⟩ (.line depth _)⟩
    · obtain ⟨line, hline, hstands⟩ := blockLines_stand body (depth + 1) h
      exact ⟨line, List.mem_cons_of_mem _ hline, hstands⟩

theorem Code.blockLines_stand {value : String} : ∀ (body : List Code) (depth : Nat),
    value ∈ blockValues body → ∃ line ∈ blockLines depth body, StandsIn value line
  | [], _, h => by simp at h
  | s :: rest, depth, h => by
    rw [blockValues, List.mem_append] at h
    rw [blockLines]
    rcases h with h | h
    · obtain ⟨line, hline, hstands⟩ := s.lines_stand depth h
      exact ⟨line, List.mem_append_left _ hline, hstands⟩
    · obtain ⟨line, hline, hstands⟩ := blockLines_stand rest depth h
      exact ⟨line, List.mem_append_right _ hline, hstands⟩

end

/-- The values, conditions and collections of a program. -/
def CodeFile.values (f : CodeFile) : List String :=
  f.functions.flatMap (fun fn => blockValues fn.body) ++ blockValues f.statements

theorem CodeFile.text_stands (f : CodeFile) (depth : Nat) {value : String} (h : value ∈ f.values) :
    StandsIn value (f.text depth) := by
  have hline : ∃ line ∈ f.lines depth, StandsIn value line := by
    rcases List.mem_append.mp h with h | h
    · obtain ⟨fn, hfn, hvalue⟩ := List.mem_flatMap.mp h
      obtain ⟨line, hline, hstands⟩ := Code.blockLines_stand fn.body (depth + 1) hvalue
      refine ⟨line, ?_, hstands⟩
      have hfunction : line ∈ f.functions.flatMap fun fn => fn.lines depth ++ [""] :=
        List.mem_flatMap.mpr ⟨fn, hfn, List.mem_append_left _ (List.mem_cons_of_mem _ hline)⟩
      simp only [lines, List.mem_append]
      exact .inl (.inl (.inr hfunction))
    · obtain ⟨line, hline, hstands⟩ := Code.blockLines_stand f.statements depth h
      refine ⟨line, ?_, hstands⟩
      simp only [lines, List.mem_append]
      exact .inl (.inr hline)
  obtain ⟨line, hline, hstands⟩ := hline
  exact hstands.trans (.intercalate (by decide) (by decide) hline)

/-! ### Statements -/

def ShownIn (spot : Spot) (code : List Code) : Prop :=
  ∃ value ∈ blockValues code, Shown [] spot value

section ShownIn

variable {spot : Spot} {code code' : List Code} {e : Expr} {value : String}

theorem ShownIn.mono (h : ShownIn spot code) (hsub : blockValues code ⊆ blockValues code') :
    ShownIn spot code' := by
  obtain ⟨value, hvalue, hshown⟩ := h
  exact ⟨value, hsub hvalue, hshown⟩

theorem Expr.Spells.shownIn (h : e.Spells value) (hvalue : value ∈ blockValues code)
    (hkept : spot.dropped = false) (hwords : ∀ w ∈ e.words, w.Formed)
    (hspot : spot ∈ e.spots [] false) : ShownIn spot code := by
  obtain ⟨n, n', hrun⟩ := h
  exact ⟨value, hvalue, emitExpr_shown hkept e _ _ hwords _ _ _ hrun hspot⟩

/-- A question that is guarded has no text of its own; what is asked for has. -/
theorem Expr.Spells.shownIn_guard {operand : Expr} {span? : Option Span} {g : Guard}
    (h : operand.Spells g.operand) (hvalue : g.operand ∈ blockValues code)
    (hkept : spot.dropped = false) (hplain : spot.expr.isQuestion = false)
    (hwords : ∀ w ∈ (Expr.propagate operand span?).words, w.Formed)
    (hspot : spot ∈ (Expr.propagate operand span?).spots [] false) : ShownIn spot code := by
  simp only [Expr.spots, List.mem_cons] at hspot
  simp only [Expr.words, List.forall_mem_append] at hwords
  rcases hspot with rfl | hspot
  · cases hplain
  · exact h.shownIn hvalue hkept hwords.1 hspot

theorem Valued.shownIn {place : QuestionPlace} (h : Valued place e gs value)
    (hguards : blockValues (gs.flatMap Guard.code) ⊆ blockValues code)
    (hvalue : value ∈ blockValues code) (hkept : spot.dropped = false)
    (hplain : spot.expr.isQuestion = false) (hwords : ∀ w ∈ e.words, w.Formed)
    (hspot : spot ∈ e.spots [] false) : ShownIn spot code := by
  cases h with
  | @guarded operand span? g hplace hoperand =>
    exact hoperand.shownIn_guard (hguards (by simp [Guard.code])) hkept hplain hwords hspot
  | plain hplace hcode => exact hcode.shownIn hvalue hkept hwords hspot

end ShownIn

mutual

/-- The text of a spot that has a place stands in a value of the code of the statement. -/
theorem Stmt.Laid.shownIn {spot : Spot} (hkept : spot.dropped = false)
    (hplain : spot.expr.isQuestion = false) : ∀ {use : Use} {s : Stmt} {gs : List Guard}
    {code : List Code}, s.Laid use gs code → (∀ w ∈ s.words, w.Formed) → spot ∈ s.spots →
    ShownIn spot code
  | _, .letVar .., _, _, .letVar hvalue, hwords, hspot
  | _, .assign .., _, _, .assign hvalue, hwords, hspot
  | _, .ret (some _) _, _, _, .ret hvalue, hwords, hspot => by
    simp only [Stmt.words, List.forall_mem_append] at hwords
    exact hvalue.shownIn (by simp [blockValues_append]) (by simp [blockValues_append]) hkept hplain
      hwords.2 hspot
  | _, .expr .., _, _, .value hvalue, hwords, hspot =>
    hvalue.shownIn (by simp [blockValues_append]) (by simp [blockValues_append]) hkept hplain hwords
      hspot
  | _, .expr (.propagate ..) _, _, _, .question hoperand, hwords, hspot =>
    hoperand.shownIn_guard (by simp [Guard.code]) hkept hplain hwords hspot
  | _, .expr .., _, _, .effect _ hcode, hwords, hspot =>
    hcode.shownIn (by simp) hkept hwords hspot
  | _, .ret none _, _, _, .retNone, _, hspot
  | _, .breakLoop _, _, _, .breakLoop, _, hspot
  | _, .continueLoop _, _, _, .continueLoop, _, hspot => by simp at hspot
  | _, .whileLoop .., _, _, .whileLoop hvalue hbody, hwords, hspot
  | _, .forLoop .., _, _, .forLoop hvalue hbody, hwords, hspot
  | _, .ifElse _ _ none _, _, _, .ifThen hvalue hbody, hwords, hspot => by
    simp only [Stmt.words, List.forall_mem_append] at hwords
    rw [Stmt.spots, List.mem_append] at hspot
    rcases hspot with hspot | hspot
    · exact hvalue.shownIn (by simp) hkept hwords.1.1.1.2 hspot
    · exact (hbody.shownIn hkept hplain hwords.1.2 hspot).mono
        (by simp [blockValues_suite, blockValues_blockCode])
  | _, .loop .., _, _, .loop hbody, hwords, hspot => by
    simp only [Stmt.words, List.forall_mem_append] at hwords
    exact (hbody.shownIn hkept hplain hwords.1.2 hspot).mono (by simp [blockValues_suite])
  | _, .ifElse condition _ (some _) _, _, _, .ifElse hcondition hthen helse, hwords, hspot => by
    simp only [Stmt.words, List.forall_mem_append] at hwords
    rw [Stmt.spots, List.mem_append, List.mem_append] at hspot
    rcases hspot with hspot | hspot | hspot
    · exact hcondition.shownIn (by simp) hkept hwords.1.1.1.1.1.2 hspot
    · exact (hthen.shownIn hkept hplain hwords.1.1.1.2 hspot).mono (by simp [blockValues_blockCode])
    · exact (helse.shownIn hkept hplain hwords.1.2 hspot).mono (by simp)

theorem BlockLaid.shownIn {spot : Spot} (hkept : spot.dropped = false)
    (hplain : spot.expr.isQuestion = false) : ∀ {use : Use} {ss : List Stmt} {gs : List Guard}
    {code : List Code}, BlockLaid use ss gs code → (∀ w ∈ stmtsWords ss, w.Formed) →
    spot ∈ stmtsSpots ss → ShownIn spot code
  | _, [], _, _, .nil, _, hspot => nomatch hspot
  | _, _ :: _, _, _, .cons hfirst hrest, hwords, hspot => by
    simp only [stmtsWords, List.forall_mem_append] at hwords
    rw [stmtsSpots, List.mem_append] at hspot
    rcases hspot with hspot | hspot
    · exact (hfirst.shownIn hkept hplain hwords.1 hspot).mono (by simp [blockValues_append])
    · exact (hrest.shownIn hkept hplain hwords.2 hspot).mono (by simp [blockValues_append])

end

/-! ### Programs -/

theorem FnsLaid.shownIn {spot : Spot} (hkept : spot.dropped = false)
    (hplain : spot.expr.isQuestion = false) {fs : List FnDecl} {fns : List CodeFn}
    (h : FnsLaid fs gs fns) (hwords : ∀ fn ∈ fs, ∀ w ∈ fn.words, w.Formed)
    (hspot : spot ∈ fs.flatMap fun fn => stmtsSpots fn.body) :
    ∃ fn ∈ fns, ShownIn spot fn.body := by
  induction h with
  | nil => cases hspot
  | @cons f fs gs gs' body fns hbody hrest ih =>
    rw [List.forall_mem_cons] at hwords
    rw [List.flatMap_cons, List.mem_append] at hspot
    rcases hspot with hspot | hspot
    · obtain ⟨name, params, ss, returns?, span?⟩ := f
      simp only [FnDecl.words, List.forall_mem_append] at hwords
      refine ⟨_, List.mem_cons_self .., (hbody.shownIn hkept hplain hwords.1.1.2 hspot).mono ?_⟩
      rw [blockValues_suite]
      exact List.Subset.refl _
    · obtain ⟨fn, hfn, hshown⟩ := ih hwords.2 hspot
      exact ⟨fn, List.mem_cons_of_mem _ hfn, hshown⟩

/-- The text of a spot that has a place stands in the text of the program. -/
theorem Program.Laid.shown {p : Program} {file : CodeFile} (h : p.Laid gs file)
    (hfunctions : ∀ fn ∈ p.functions, ∀ w ∈ fn.words, w.Formed)
    (hstatements : ∀ w ∈ stmtsWords p.statements, w.Formed) {spot : Spot} (hspot : spot ∈ p.spots)
    (hkept : spot.dropped = false) (hplain : spot.expr.isQuestion = false) (depth : Nat) :
    Shown [] spot (file.text depth) := by
  obtain ⟨hfns, hblock⟩ := h
  have hvalue : ∃ value ∈ file.values, Shown [] spot value := by
    rcases List.mem_append.mp hspot with hspot | hspot
    · obtain ⟨fn, hfn, value, hvalue, hshown⟩ := hfns.shownIn hkept hplain hfunctions hspot
      exact ⟨value, List.mem_append_left _ (List.mem_flatMap.mpr ⟨fn, hfn, hvalue⟩), hshown⟩
    · obtain ⟨value, hvalue, hshown⟩ := hblock.shownIn hkept hplain hstatements hspot
      exact ⟨value, List.mem_append_right _ hvalue, hshown⟩
  obtain ⟨value, hvalue, hshown⟩ := hvalue
  exact hshown.trans (file.text_stands depth hvalue)

end Owl
