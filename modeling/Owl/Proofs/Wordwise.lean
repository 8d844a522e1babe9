/-
Changes of texts that go word by word.

A word is a run of word characters that is as long as it can be.  Some changes of a
text can be made in its parts, if the parts meet where no word is cut in two.

* `Wordwise.of_cut` — a change goes word by word if it can be made in front of each
  character that is no word character, and behind it;
* `Wordwise.binaryText`, … `Wordwise.choiceText` — what such a change makes of the text
  of an expression.
-/
import Mathlib.Data.List.Infix
import Mathlib.Data.List.TakeWhile
import Owl.Code.Emit

namespace Owl

open Text

variable {c : Char} {a s b : String}

/-! ### Words -/

theorem isPrefixOf_cut {word : List Char} (h : c ∉ word) (a b : List Char) :
    word.isPrefixOf (a ++ c :: b) = word.isPrefixOf a := by
  induction word generalizing a with
  | nil => simp
  | cons x word ih =>
    have hx : x ≠ c := fun heq => h (heq ▸ List.mem_cons_self ..)
    have hword : c ∉ word := fun hmem => h (List.mem_cons_of_mem _ hmem)
    cases a with
    | nil => simp [List.isPrefixOf, hx]
    | cons y a =>
      rw [List.cons_append, List.isPrefixOf, List.isPrefixOf, ih hword]

theorem not_mem_of_wordChars {word : List Char} (hc : isWordChar c = false)
    (hword : word.all isWordChar = true) : c ∉ word := by
  intro hmem
  rw [List.all_eq_true.mp hword c hmem] at hc
  cases hc

/-- A text is a word, or a word in front of another character and a shorter text. -/
theorem words_induction {P : List Char → Prop} (word : ∀ w, w.all isWordChar = true → P w)
    (cut : ∀ w c rest, w.all isWordChar = true → isWordChar c = false → P rest →
      P (w ++ c :: rest)) (cs : List Char) : P cs := by
  induction hlength : cs.length using Nat.strong_induction_on generalizing cs with
  | h n ih =>
    have hsplit := List.takeWhile_append_dropWhile (p := isWordChar) (l := cs)
    have hword : (cs.takeWhile isWordChar).all isWordChar = true := List.all_takeWhile
    cases hrest : cs.dropWhile isWordChar with
    | nil =>
      rw [hrest, List.append_nil] at hsplit
      rw [← hsplit]
      exact word _ hword
    | cons c rest =>
      have hc : isWordChar c = false := by
        have hhead := List.head?_dropWhile_not isWordChar cs
        rw [hrest] at hhead
        simpa using hhead
      have hshort := congrArg List.length hsplit
      rw [hrest, List.length_append, List.length_cons] at hshort
      rw [← hsplit, hrest]
      exact cut _ c rest hword hc (ih rest.length (by omega) rest rfl)

/-! ### Ends of texts -/

def isShut (s : String) : Bool := !s.toList.getLast?.any isWordChar

def isApart (s : String) : Bool := !s.toList.head?.any isWordChar

theorem isShut_append (ha : isShut a = true) (hb : isShut b = true) : isShut (a ++ b) = true := by
  rw [isShut, String.toList_append]
  rcases List.eq_nil_or_concat' b.toList with hnil | ⟨front, c, hfront⟩
  · rwa [hnil, List.append_nil]
  · rwa [hfront, ← List.append_assoc, List.getLast?_concat, ← List.getLast?_concat (l := front),
      ← hfront]

theorem isApart_append (ha : isApart a = true) (hb : isApart b = true) :
    isApart (a ++ b) = true := by
  rw [isApart, String.toList_append]
  cases hnil : a.toList with
  | nil => exact hb
  | cons c cs =>
    rw [isApart, hnil] at ha
    exact ha

def endsBlank (s : String) : Bool := isShut s && s != ""

/-- Whether a text is not empty and starts with no word character. -/
def startsBlank (s : String) : Bool := isApart s && s != ""

theorem isShut_of_endsBlank (a : String) (h : endsBlank b = true) : isShut (a ++ b) = true := by
  rw [endsBlank, Bool.and_eq_true, bne_iff_ne] at h
  rw [isShut, String.toList_append, List.getLast?_append_of_ne_nil]
  · exact h.1
  · rw [Ne, String.toList_eq_nil_iff]
    exact h.2

theorem isApart_of_startsBlank (h : startsBlank a = true) (b : String) :
    isApart (a ++ b) = true := by
  rw [startsBlank, Bool.and_eq_true, bne_iff_ne] at h
  rw [isApart, String.toList_append, List.head?_append_of_ne_nil]
  · exact h.1
  · rw [Ne, String.toList_eq_nil_iff]
    exact h.2

def isMark (s : String) : Bool := s.toList.all (!isWordChar ·) && s != ""

/-! ### Changes that go word by word -/

/-- A change of texts that can be made in two parts of a text, if not both of them have a word
character where they meet.  It leaves texts without word characters alone. -/
structure Wordwise (f : String → String) : Prop where
  shut_append : ∀ a b, isShut a = true → f (a ++ b) = f a ++ f b
  append_apart : ∀ a b, isApart b = true → f (a ++ b) = f a ++ f b
  blank : ∀ s, s.toList.all (!isWordChar ·) = true → f s = s

namespace Wordwise

variable {f g : String → String}

theorem id : Wordwise fun s => s := ⟨fun _ _ _ => rfl, fun _ _ _ => rfl, fun _ _ => rfl⟩

theorem empty (h : Wordwise f) : f "" = "" := h.blank "" rfl

theorem isShut (h : Wordwise f) (ha : isShut a = true) : isShut (f a) = true := by
  rcases List.eq_nil_or_concat' a.toList with hnil | ⟨front, c, hfront⟩
  · rw [String.toList_eq_nil_iff.mp hnil, h.empty]
    rfl
  · have hc : isWordChar c = false := by
      rw [Owl.isShut, hfront, List.getLast?_concat, Option.any_some, Bool.not_eq_true'] at ha
      exact ha
    have hsplit : a = String.ofList front ++ String.ofList [c] := by
      rw [← String.toList_inj, String.toList_append, String.toList_ofList, String.toList_ofList,
        hfront]
    have hlast : f (String.ofList [c]) = String.ofList [c] := h.blank _ (by simp [hc])
    rw [hsplit, h.append_apart _ _ (by simp [Owl.isApart, hc]), hlast]
    exact isShut_of_endsBlank _ (by simp [endsBlank, Owl.isShut, hc])

theorem isApart (h : Wordwise f) (ha : isApart a = true) : isApart (f a) = true := by
  cases hcs : a.toList with
  | nil =>
    rw [String.toList_eq_nil_iff.mp hcs, h.empty]
    rfl
  | cons c cs =>
    have hc : isWordChar c = false := by
      rw [Owl.isApart, hcs, List.head?_cons, Option.any_some, Bool.not_eq_true'] at ha
      exact ha
    have hsplit : a = String.ofList [c] ++ String.ofList cs := by
      rw [← String.toList_inj, String.toList_append, String.toList_ofList, String.toList_ofList,
        hcs, List.singleton_append]
    have hfirst : f (String.ofList [c]) = String.ofList [c] := h.blank _ (by simp [hc])
    rw [hsplit, h.shut_append _ _ (by simp [Owl.isShut, hc]), hfirst]
    exact isApart_of_startsBlank (by simp [startsBlank, Owl.isApart, hc]) _

theorem comp (hf : Wordwise f) (hg : Wordwise g) : Wordwise fun s => g (f s) where
  shut_append a b ha := by rw [hf.shut_append a b ha, hg.shut_append _ _ (hf.isShut ha)]
  append_apart a b hb := by rw [hf.append_apart a b hb, hg.append_apart _ _ (hf.isApart hb)]
  blank s hs := by rw [hf.blank s hs, hg.blank s hs]

/-- Behind a text without word characters at its end, and in front of one without any at its start,
the parts are changed on their own. -/
theorem between (h : Wordwise f) (a : String) (hs : isMark s = true) (b : String) :
    f (a ++ s ++ b) = f a ++ s ++ f b := by
  rw [isMark, Bool.and_eq_true, bne_iff_ne] at hs
  have hchar : ∀ c ∈ s.toList, isWordChar c = false := by simpa using hs.1
  have hnil : s.toList ≠ [] := by
    rw [Ne, String.toList_eq_nil_iff]
    exact hs.2
  have hshut : Owl.isShut s = true := by
    rw [Owl.isShut, List.getLast?_eq_some_getLast hnil, Option.any_some,
      hchar _ (List.getLast_mem hnil)]
    rfl
  have hapart : Owl.isApart s = true := by
    rw [Owl.isApart, List.head?_eq_some_head hnil, Option.any_some, hchar _ (List.head_mem hnil)]
    rfl
  rw [h.shut_append _ _ (isShut_of_endsBlank a (by simp [endsBlank, hshut, hs.2])),
    h.append_apart _ _ hapart, h.blank s hs.1]

/-- A text that stays as it is, with no word character at its ends, between two others. -/
theorem joined (h : Wordwise f) (a : String) (hstarts : startsBlank s = true)
    (hends : endsBlank s = true) (hs : f s = s) (b : String) :
    f (a ++ s ++ b) = f a ++ s ++ f b := by
  rw [startsBlank, Bool.and_eq_true] at hstarts
  rw [h.shut_append _ _ (isShut_of_endsBlank a hends), h.append_apart _ _ hstarts.1, hs]

theorem of_cut {g : List Char → List Char} (hnil : g [] = [])
    (hcut : ∀ a c b, isWordChar c = false → g (a ++ c :: b) = g a ++ c :: g b) :
    Wordwise fun s => String.ofList (g s.toList) := by
  refine ⟨fun a b ha => ?_, fun a b hb => ?_, fun s hs => ?_⟩
  · rw [← String.ofList_append, String.toList_append]
    refine congrArg String.ofList ?_
    rcases List.eq_nil_or_concat' a.toList with hempty | ⟨front, c, hfront⟩
    · rw [hempty, hnil]
      rfl
    · rw [Owl.isShut, hfront, List.getLast?_concat, Option.any_some, Bool.not_eq_true'] at ha
      rw [hfront, List.append_assoc, List.singleton_append, hcut _ _ _ ha, hcut _ _ _ ha, hnil,
        List.append_assoc]
      rfl
  · rw [← String.ofList_append, String.toList_append]
    refine congrArg String.ofList ?_
    cases hcs : b.toList with
    | nil => rw [hnil, List.append_nil, List.append_nil]
    | cons c cs =>
      rw [Owl.isApart, hcs, List.head?_cons, Option.any_some, Bool.not_eq_true'] at hb
      have hfirst := hcut [] c cs hb
      rw [List.nil_append, hnil, List.nil_append] at hfirst
      rw [hcut _ _ _ hb, hfirst]
  · rw [← String.toList_inj, String.toList_ofList]
    generalize s.toList = cs at hs
    induction cs with
    | nil => exact hnil
    | cons c cs ih =>
      rw [List.all_cons, Bool.and_eq_true, Bool.not_eq_true'] at hs
      have hfirst := hcut [] c cs hs.1
      rw [List.nil_append, hnil, List.nil_append] at hfirst
      rw [hfirst, ih hs.2]

theorem map_intercalate (h : Wordwise f) {sep : String} (hstarts : startsBlank sep = true)
    (hends : endsBlank sep = true) (hsep : f sep = sep) (parts : List String) :
    f (sep.intercalate parts) = sep.intercalate (parts.map f) := by
  induction parts with
  | nil => exact h.empty
  | cons a parts ih =>
    cases parts with
    | nil => simp
    | cons b parts =>
      rw [String.intercalate_cons_cons, h.joined a hstarts hends hsep, ih]
      exact String.intercalate_cons_cons.symm

theorem map_commaList (h : Wordwise f) (values : List String) :
    f (commaList values) = commaList (values.map f) :=
  h.map_intercalate (by decide) (by decide) (h.blank ", " (by decide)) values

/-! ### Texts of expressions -/

/-- A text between two that stay as they are. -/
theorem enclosed (h : Wordwise f) {left right : String} (hshut : Owl.isShut left = true)
    (hapart : Owl.isApart right = true) (hleft : f left = left) (hright : f right = right)
    (s : String) : f (left ++ s ++ right) = left ++ f s ++ right := by
  rw [h.append_apart _ _ hapart, h.shut_append _ _ hshut, hleft, hright]

theorem binaryText (h : Wordwise f) {op : String} (hop : f op = op) (left right : String) :
    f ("(" ++ left ++ " " ++ op ++ " " ++ right ++ ")") =
      "(" ++ f left ++ " " ++ op ++ " " ++ f right ++ ")" := by
  rw [h.append_apart _ _ (by decide), h.between _ (by decide), h.between _ (by decide),
    h.shut_append _ _ (by decide), hop, h.blank "(" (by decide), h.blank ")" (by decide)]

theorem unaryText (h : Wordwise f) {op : String} (hop : f op = op) (hshut : Owl.isShut op = true)
    (operand : String) : f ("(" ++ op ++ operand ++ ")") = "(" ++ op ++ f operand ++ ")" := by
  refine h.enclosed (isShut_append (by decide) hshut) (by decide) ?_ (h.blank ")" (by decide)) _
  rw [h.shut_append _ _ (by decide), hop, h.blank "(" (by decide)]

theorem callText (h : Wordwise f) (callee : String) (args : List String) :
    f (callee ++ "(" ++ commaList args ++ ")") =
      f callee ++ "(" ++ commaList (args.map f) ++ ")" := by
  rw [h.append_apart _ _ (by decide), h.between _ (by decide), h.map_commaList,
    h.blank ")" (by decide)]

theorem listText (h : Wordwise f) (elements : List String) :
    f ("[" ++ commaList elements ++ "]") = "[" ++ commaList (elements.map f) ++ "]" := by
  rw [h.enclosed (by decide) (by decide) (h.blank "[" (by decide)) (h.blank "]" (by decide)),
    h.map_commaList]

theorem matchText (h : Wordwise f) (hlambda : f "((lambda " = "((lambda ")
    (temp choice subject : String) :
    f ("((lambda " ++ temp ++ ": " ++ choice ++ ")(" ++ subject ++ "))") =
      "((lambda " ++ f temp ++ ": " ++ f choice ++ ")(" ++ f subject ++ "))" := by
  rw [h.append_apart _ _ (by decide), h.between _ (by decide), h.between _ (by decide),
    h.shut_append _ _ (by decide), hlambda, h.blank "))" (by decide)]

theorem choiceText (h : Wordwise f) (hif : f " if " = " if ") (helse : f " else " = " else ")
    (first test rest : String) :
    f ("(" ++ first ++ " if " ++ test ++ " else " ++ rest ++ ")") =
      "(" ++ f first ++ " if " ++ f test ++ " else " ++ f rest ++ ")" := by
  rw [h.append_apart _ _ (by decide), h.joined _ (by decide) (by decide) helse,
    h.joined _ (by decide) (by decide) hif, h.shut_append _ _ (by decide),
    h.blank "(" (by decide), h.blank ")" (by decide)]

end Wordwise

/-! ### Replacing whole words -/

section Replacing

variable {word : List Char} (hne : word ≠ []) (hword : word.all isWordChar = true)

include hne

theorem replaceWordFrom_nil (new : List Char) (before : Option Char) (skip : Nat) :
    replaceWordFrom word new before skip [] = [] := by
  obtain ⟨x, xs, rfl⟩ := List.exists_cons_of_ne_nil hne
  rw [replaceWordFrom]
  simp [afterWord?]

theorem replaceWordFrom_cons (new : List Char) (before : Option Char) (c : Char)
    (cs : List Char) :
    replaceWordFrom word new before 0 (c :: cs) =
      if (afterWord? before word (c :: cs)).isSome then
        new ++ replaceWordFrom word new (some c) (word.length - 1) cs
      else c :: replaceWordFrom word new (some c) 0 cs := by
  obtain ⟨x, xs, rfl⟩ := List.exists_cons_of_ne_nil hne
  rw [replaceWordFrom]
  cases afterWord? before (x :: xs) (c :: cs) with
  | none => rfl
  | some rest => rfl

include hword

/-- A word is found where no word character stands next to it. -/
theorem isSome_afterWord? (before : Option Char) (cs : List Char) :
    (afterWord? before word cs).isSome =
      (word.isPrefixOf cs && !before.any isWordChar &&
        !(cs.drop word.length).head?.any isWordChar) := by
  rw [afterWord?]
  split
  · next hstarts =>
    obtain ⟨rest, rfl⟩ := List.isPrefixOf_iff_prefix.mp hstarts
    obtain ⟨x, xs, rfl⟩ := List.exists_cons_of_ne_nil hne
    obtain ⟨ys, y, hlast⟩ := List.eq_nil_or_concat' (x :: xs) |>.resolve_left hne
    have hx : isWordChar x = true := List.all_eq_true.mp hword x (List.mem_cons_self ..)
    have hy : isWordChar y = true := List.all_eq_true.mp hword y (by rw [hlast]; simp)
    have hget : (x :: xs).getLast? = some y := by rw [hlast, List.getLast?_concat]
    rw [hget, hstarts, List.drop_left]
    simp only [isEdge, List.cons_append, List.head?_cons, Option.any_some, hx, hy]
    cases before.any isWordChar <;> cases rest.head?.any isWordChar <;> rfl
  · next hstarts =>
    rw [Bool.not_eq_true] at hstarts
    rw [hstarts]
    rfl

/-- What stands in front of a text shows only in whether it is a word character. -/
theorem replaceWordFrom_before {before before' : Option Char}
    (h : before.any isWordChar = before'.any isWordChar) (new cs : List Char) :
    replaceWordFrom word new before 0 cs = replaceWordFrom word new before' 0 cs := by
  cases cs with
  | nil => rw [replaceWordFrom_nil hne, replaceWordFrom_nil hne]
  | cons c cs =>
    rw [replaceWordFrom_cons hne, replaceWordFrom_cons hne, isSome_afterWord? hne hword,
      isSome_afterWord? hne hword, h]

theorem isSome_afterWord?_cut (hc : isWordChar c = false) (before : Option Char) (a b : List Char) :
    (afterWord? before word (a ++ c :: b)).isSome = (afterWord? before word a).isSome := by
  rw [isSome_afterWord? hne hword, isSome_afterWord? hne hword,
    isPrefixOf_cut (not_mem_of_wordChars hc hword)]
  by_cases hstarts : word.isPrefixOf a = true
  · have hlength := (List.isPrefixOf_iff_prefix.mp hstarts).length_le
    rw [List.drop_append_of_le_length hlength]
    cases a.drop word.length with
    | nil => simp [hc]
    | cons x rest => rfl
  · rw [Bool.not_eq_true] at hstarts
    rw [hstarts]
    rfl

/-- Words are replaced in front of a character that is no word character, and behind it. -/
theorem replaceWordFrom_cut (hc : isWordChar c = false) (new a b : List Char)
    (before : Option Char) (skip : Nat) (h : skip ≤ a.length) :
    replaceWordFrom word new before skip (a ++ c :: b) =
      replaceWordFrom word new before skip a ++ c :: replaceWordFrom word new none 0 b := by
  -- The character in front changes with each step, and behind the cut it is no word character.
  induction a generalizing before skip with
  | nil =>
    obtain rfl := Nat.le_zero.mp h
    have hnone : (afterWord? before word (c :: b)).isSome = false := by
      rw [← List.nil_append (c :: b), isSome_afterWord?_cut hne hword hc,
        isSome_afterWord? hne hword]
      obtain ⟨x, xs, rfl⟩ := List.exists_cons_of_ne_nil hne
      rfl
    have hbefore : (some c).any isWordChar = (none : Option Char).any isWordChar := hc
    have hrest := replaceWordFrom_before hne hword hbefore new b
    rw [List.nil_append, replaceWordFrom_cons hne, hnone, replaceWordFrom_nil hne, ← hrest]
    rfl
  | cons x a ih =>
    cases skip with
    | succ skip => exact ih (some x) skip (Nat.le_of_succ_le_succ h)
    | zero =>
      have hcut := isSome_afterWord?_cut hne hword hc before (x :: a) b
      rw [List.cons_append] at hcut
      rw [List.cons_append, replaceWordFrom_cons hne, replaceWordFrom_cons hne, hcut]
      by_cases hfound : (afterWord? before word (x :: a)).isSome = true
      · have hlength : word.length ≤ (x :: a).length := by
          rw [isSome_afterWord? hne hword, Bool.and_eq_true, Bool.and_eq_true] at hfound
          exact (List.isPrefixOf_iff_prefix.mp hfound.1.1).length_le
        rw [if_pos hfound, if_pos hfound, ih (some x) _ (Nat.sub_le_of_le_add hlength),
          List.append_assoc]
      · rw [if_neg hfound, if_neg hfound, ih (some x) 0 (Nat.zero_le _), List.cons_append]

theorem replaceWordFrom_inside {x : Char} (hx : isWordChar x = true) (new : List Char)
    {cs : List Char} (hcs : cs.all isWordChar = true) :
    replaceWordFrom word new (some x) 0 cs = cs := by
  induction cs generalizing x with
  | nil => exact replaceWordFrom_nil hne new _ 0
  | cons c cs ih =>
    rw [List.all_cons, Bool.and_eq_true] at hcs
    have hnone : (afterWord? (some x) word (c :: cs)).isSome = false := by
      rw [isSome_afterWord? hne hword, Option.any_some, hx, Bool.not_true, Bool.and_false,
        Bool.false_and]
    rw [replaceWordFrom_cons hne, hnone, if_neg Bool.false_ne_true, ih hcs.1 hcs.2]

omit hword in
theorem replaceWordFrom_skip (new : List Char) (before : Option Char) (cs : List Char) :
    replaceWordFrom word new before cs.length cs = [] := by
  induction cs generalizing before with
  | nil => exact replaceWordFrom_nil hne new before 0
  | cons c cs ih => exact ih (some c)

theorem replaceWordFrom_word (new : List Char) {cs : List Char} (hcs : cs.all isWordChar = true) :
    replaceWordFrom word new none 0 cs = if cs = word then new else cs := by
  cases cs with
  | nil => rw [replaceWordFrom_nil hne, if_neg (Ne.symm hne)]
  | cons c cs =>
    rw [replaceWordFrom_cons hne]
    by_cases heq : c :: cs = word
    · have hfound : (afterWord? none word (c :: cs)).isSome = true := by
        rw [isSome_afterWord? hne hword, heq, List.drop_length,
          List.isPrefixOf_iff_prefix.mpr List.prefix_rfl]
        rfl
      have hlength : word.length - 1 = cs.length := by rw [← heq]; rfl
      rw [if_pos heq, if_pos hfound, hlength, replaceWordFrom_skip hne, List.append_nil]
    · have hnone : (afterWord? none word (c :: cs)).isSome = false := by
        rw [isSome_afterWord? hne hword]
        by_cases hstarts : word.isPrefixOf (c :: cs) = true
        · -- Behind the word that is looked for, this one goes on.
          obtain ⟨rest, hrest⟩ := List.isPrefixOf_iff_prefix.mp hstarts
          rw [← hrest] at heq hcs ⊢
          cases rest with
          | nil => exact absurd (List.append_nil word) heq
          | cons y rest =>
            have hy : isWordChar y = true := List.all_eq_true.mp hcs y (by simp)
            rw [List.drop_left]
            simp [hy]
        · rw [Bool.not_eq_true] at hstarts
          rw [hstarts]
          rfl
      rw [List.all_cons, Bool.and_eq_true] at hcs
      rw [if_neg heq, hnone, if_neg Bool.false_ne_true,
        replaceWordFrom_inside hne hword hcs.1 new hcs.2]

end Replacing

/-- Replacing a word goes word by word. -/
theorem replaceWord_wordwise {word : String} (hne : word ≠ "")
    (hword : word.toList.all isWordChar = true) (new : String) :
    Wordwise (replaceWord word new) := by
  have hne' : word.toList ≠ [] := by rwa [Ne, String.toList_eq_nil_iff]
  exact .of_cut (replaceWordFrom_nil hne' _ none 0) fun a c b hc =>
    replaceWordFrom_cut hne' hword hc new.toList a b none 0 (Nat.zero_le _)

theorem replaceWord_word {word : String} (hne : word ≠ "")
    (hword : word.toList.all isWordChar = true) (new : String) {w : String}
    (hw : w.toList.all isWordChar = true) :
    replaceWord word new w = if w = word then new else w := by
  have hne' : word.toList ≠ [] := by rwa [Ne, String.toList_eq_nil_iff]
  rw [← String.toList_inj, replaceWord, String.toList_ofList,
    replaceWordFrom_word hne' hword _ hw]
  by_cases hsame : w = word
  · rw [if_pos hsame, if_pos (by rw [hsame])]
  · rw [if_neg hsame, if_neg (by rwa [String.toList_inj])]

/-! ### Words of a text -/

/-- The words of a text. -/
def wordsOf (s : String) : List String :=
  (s.toList.splitOnP (!isWordChar ·)).map String.ofList

def Builtin.words (b : Builtin) : List String :=
  b.template.flatMap fun piece => match piece with
    | .text s => wordsOf s
    | .arg _ => []

theorem wordsOf_word {w : List Char} (hw : w.all isWordChar = true) :
    wordsOf (String.ofList w) = [String.ofList w] := by
  have hsingle : w.splitOnP (!isWordChar ·) = [w] :=
    List.splitOnP_eq_singleton fun c hc => by simp [List.all_eq_true.mp hw c hc]
  rw [wordsOf, String.toList_ofList, hsingle, List.map_singleton]

theorem wordsOf_cut {w : List Char} (hw : w.all isWordChar = true) (hc : isWordChar c = false)
    (rest : List Char) :
    wordsOf (String.ofList (w ++ c :: rest)) =
      String.ofList w :: wordsOf (String.ofList rest) := by
  have hfirst : (w ++ c :: rest).splitOnP (!isWordChar ·) = w :: rest.splitOnP (!isWordChar ·) :=
    List.splitOnP_append_cons_of_forall_mem
      (fun x hx => by simp [List.all_eq_true.mp hw x hx]) c (by simp [hc]) rest
  rw [wordsOf, wordsOf, String.toList_ofList, String.toList_ofList, hfirst, List.map_cons]

/-- Two changes that make the same of the words of a text make the same of the text. -/
theorem Wordwise.ext {f g : String → String} (hf : Wordwise f) (hg : Wordwise g)
    (h : ∀ word ∈ wordsOf s, word.toList.all isWordChar = true → f word = g word) : f s = g s := by
  have hchars : ∀ cs : List Char, (∀ word ∈ wordsOf (String.ofList cs),
      word.toList.all isWordChar = true → f word = g word) →
      f (String.ofList cs) = g (String.ofList cs) := by
    intro cs
    -- A text is a word, or a word in front of a character that cuts it off.
    induction cs using words_induction with
    | word w hw =>
      intro h
      rw [wordsOf_word hw, List.forall_mem_singleton] at h
      exact h (by rwa [String.toList_ofList])
    | cut w c rest hw hc ih =>
      intro h
      rw [wordsOf_cut hw hc, List.forall_mem_cons] at h
      have htext : String.ofList (w ++ c :: rest) =
          String.ofList w ++ String.ofList [c] ++ String.ofList rest := by
        simp [← String.toList_inj]
      have hmark : isMark (String.ofList [c]) = true := by simp [isMark, hc]
      rw [htext, hf.between _ hmark, hg.between _ hmark, h.1 (by rwa [String.toList_ofList]),
        ih h.2]
  have htext := hchars s.toList (by rwa [String.ofList_toList])
  rwa [String.ofList_toList] at htext

/-- A change that leaves the words of a text alone leaves the text alone. -/
theorem Wordwise.of_words {f : String → String} (hf : Wordwise f)
    (h : ∀ word ∈ wordsOf s, word.toList.all isWordChar = true → f word = word) : f s = s :=
  hf.ext .id h

end Owl
