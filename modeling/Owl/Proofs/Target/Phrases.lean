/-
Texts that are read as a tree.

* `ReadAs.parens`, `ReadAs.call`, … — how texts are put together;
* `Renaming.bind` — what an arm of a match makes of its value is a `Renaming`.
-/
import Owl.Proofs.Substitution
import Owl.Proofs.Target.Lines
import Owl.Proofs.Target.Reading
import Owl.Proofs.Writing

namespace Owl

open Text

variable {s : String} {t : Target.Tree} {cs : List Char} {codes : List String}
  {trees : List Target.Tree} {c : Char}

/-- Whether a pattern binds a name that can be told from the variables of matches. -/
def Pattern.isReadable (p : Pattern) : Bool :=
  p.binding?.all fun b => Target.isIdentifier b && !isMatchName b

namespace Target

/-- A text is read as a tree of a level; `dotted` says whether a point can stand behind it. -/
def ReadAs (level : Level) (dotted : Bool) (s : String) (t : Tree) : Prop :=
  ∃ ts, Lexes dotted s ts ∧ Reads level ts t

/-! ### Putting texts together -/

theorem Lexes.between {a b mid : String} {ts us ms : List Symbol} {dotted dotted' : Bool}
    (ha : Lexes dotted a ts) (hmid : LexesFree mid ms) (hblank : mid.toList.head? = some ' ')
    (hb : Lexes dotted' b us) : Lexes dotted' (a ++ mid ++ b) (ts ++ ms ++ us) := by
  have hne : mid ≠ "" := by
    rintro rfl
    cases hblank
  have hfollows : follows false mid.toList = true := by
    rw [follows, hblank]
    decide
  exact (ha.undotted.mark hmid hne hfollows).append hb

namespace ReadAs

variable {level : Level} {dotted dotted' : Bool} {a b : String} {t u : Tree}

theorem weaken {level' : Level} (h : ReadAs level dotted a t) (hle : level'.order ≤ level.order) :
    ReadAs level' dotted a t := by
  obtain ⟨ts, hlex, hread⟩ := h
  exact ⟨ts, hlex, hread.weaken hle⟩

theorem undotted (h : ReadAs level dotted a t) : ReadAs level false a t := by
  obtain ⟨ts, hlex, hread⟩ := h
  exact ⟨ts, hlex.undotted, hread⟩

theorem whole (h : ReadAs level dotted a t) : ReadAs .whole false a t :=
  (h.weaken (Nat.zero_le _)).undotted

theorem read_eq (h : ReadAs level dotted a t) : read a = some t := by
  obtain ⟨ts, hlex, hread⟩ := h.whole
  exact hread.read_eq hlex

theorem name (h : Lexes true s [.name s]) : ReadAs .primary true s (.name s) :=
  ⟨[.name s], h, .atom fun _ _ _ => rfl⟩

theorem numeral (h : IsNumeral cs) :
    ReadAs .primary false (String.ofList cs) (.number (String.ofList cs)) :=
  ⟨[.number (String.ofList cs)], lexes_numeral h, .atom fun _ _ _ => rfl⟩

theorem parens (h : ReadAs level dotted a t) : ReadAs .primary true ("(" ++ a ++ ")") t := by
  obtain ⟨ts, hlex, hread⟩ := h.whole
  have hopen : LexesFree "(" [.lparen] := lexesFree_mark (by decide)
  have hclose : LexesFree ")" [.rparen] := lexesFree_mark (by decide)
  refine ⟨_, ((hopen.append hlex).mark hclose (by decide) (by decide)).lexes true, ?_⟩
  exact hread.parens

theorem field (h : ReadAs .primary true a t) (hs : isIdentifier s = true) :
    ReadAs .primary true (a ++ "." ++ s) (.field t s) := by
  obtain ⟨ts, hlex, hread⟩ := h
  have hdot : LexesFree "." [.dot] := lexesFree_mark (by decide)
  refine ⟨_, (hlex.mark hdot (by decide) (by decide)).append (lexes_identifier hs), ?_⟩
  rw [List.append_assoc]
  exact hread.field s

theorem index (h : ReadAs .primary dotted a t) (hu : ReadAs level dotted' b u) :
    ReadAs .primary true (a ++ "[" ++ b ++ "]") (.index t u) := by
  obtain ⟨ts, hlex, hread⟩ := h.undotted
  obtain ⟨us, hlex', hread'⟩ := hu.whole
  have hopen : LexesFree "[" [.lbracket] := lexesFree_mark (by decide)
  have hclose : LexesFree "]" [.rbracket] := lexesFree_mark (by decide)
  have hall := ((hlex.mark hopen (by decide) (by decide)).append hlex').mark hclose (by decide)
    (by decide)
  refine ⟨_, hall.lexes true, ?_⟩
  rw [List.append_assoc ts]
  exact hread.index hread'

theorem neg (h : ReadAs .unary dotted a t) : ReadAs .unary dotted ("-" ++ a) (.neg t) := by
  obtain ⟨ts, hlex, hread⟩ := h
  have hsign : LexesFree "-" [.op .sub] := lexesFree_mark (by decide)
  exact ⟨_, hsign.append hlex, hread.neg⟩

end ReadAs

/-! ### Operators -/

def Op.apply (o : Op) (left right : Tree) : Tree :=
  if o.rank = 3 then .compare left [(o, right)] else .binary o left right

def Op.left (o : Op) : Level := if o.rank = 5 then .unary else .sum

def Op.right (o : Op) : Level := if o.rank = 3 then .sum else .unary

theorem Op.rank_cases (o : Op) : o.rank = 3 ∨ o.rank = 4 ∨ o.rank = 5 := by
  cases o <;> decide

section Operations

variable {s : String} {o : Op} (hs : Op.ofText? s = some o) {dotted dotted' : Bool} {a b : String}

include hs

theorem Lexes.operation {ts us : List Symbol} (ha : Lexes dotted a ts) (hb : Lexes dotted' b us) :
    Lexes dotted' (a ++ " " ++ s ++ " " ++ b) (ts ++ [Symbol.op o] ++ us) := by
  have hblank : (" " ++ s ++ " ").toList.head? = some ' ' := by simp
  have hall := ha.between (lexes_op hs).spaced hblank hb
  have htext : a ++ (" " ++ s ++ " ") ++ b = a ++ " " ++ s ++ " " ++ b := by
    simp only [String.append_assoc]
  rwa [htext] at hall

theorem ReadAs.add {u : Tree} (hrank : o.rank = 4) (h : ReadAs .sum dotted a t)
    (hu : ReadAs .unary dotted' b u) :
    ReadAs .sum dotted' (a ++ " " ++ s ++ " " ++ b) (.binary o t u) := by
  obtain ⟨ts, hlex, hread⟩ := h
  obtain ⟨us, hlex', hread'⟩ := hu
  refine ⟨_, hlex.operation hs hlex', ?_⟩
  rw [List.append_assoc]
  exact hread.add hrank (hread'.weaken (by decide))

/-- An operation, whatever its rank, is at least as tight as a comparison. -/
theorem ReadAs.operation {u : Tree} (h : ReadAs o.left dotted a t)
    (hu : ReadAs o.right dotted' b u) :
    ReadAs .comparison dotted' (a ++ " " ++ s ++ " " ++ b) (o.apply t u) := by
  rw [Op.left] at h
  rw [Op.right] at hu
  rw [Op.apply]
  obtain hrank | hrank | hrank := o.rank_cases
  · rw [hrank] at h hu ⊢
    obtain ⟨ts, hlex, hread⟩ := h
    obtain ⟨us, hlex', hread'⟩ := hu
    exact ⟨_, hlex.operation hs hlex', .compare (fun _ => if_pos hrank)
      (fun _ => .cons (by rw [Symbol.rank, hrank]; decide) _) hread hread'⟩
  · rw [hrank] at h hu ⊢
    exact (ReadAs.add hs hrank h hu).weaken (by decide)
  · rw [hrank] at h hu ⊢
    obtain ⟨ts, hlex, hread⟩ := h
    obtain ⟨us, hlex', hread'⟩ := hu
    refine ⟨_, hlex.operation hs hlex', ?_⟩
    rw [List.append_assoc]
    exact (hread.multiply hrank hread').weaken (by decide)

end Operations

/-! ### Lists and calls -/

theorem commaList_singleton (a : String) : commaList [a] = a := by simp [commaList]

theorem commaList_cons (a b : String) (rest : List String) :
    commaList (a :: b :: rest) = a ++ ", " ++ commaList (b :: rest) := by
  simp [commaList, String.append_assoc]

theorem ReadAs.commaList (h : List.Forall₂ (ReadAs .whole false) codes trees) :
    ∃ tss : List (List Symbol), List.Forall₂ (Reads .whole) tss trees ∧
      Lexes false (commaList codes) ([Symbol.comma].intercalate tss) := by
  induction h with
  | nil =>
    refine ⟨[], .nil, fun rest _ => ?_⟩
    show lexFrom 0 rest = (lexFrom 0 rest).map fun ts => ts
    rw [Option.map_id']
  | @cons a t codes trees hfirst hmore ih =>
    obtain ⟨ts, hlex, hread⟩ := hfirst
    obtain ⟨tss, hreads, hlexes⟩ := ih
    refine ⟨ts :: tss, .cons hread hreads, ?_⟩
    cases hmore with
    | nil =>
      cases hreads
      simpa [Owl.commaList] using hlex
    | @cons b u codes trees hsecond hmore =>
      obtain _ | ⟨hsecond, hreads⟩ := hreads
      have hcomma : LexesFree "," [.comma] := lexesFree_mark (by decide)
      have htext : "," ++ " " = ", " := by simp
      have hsep : LexesFree ", " [.comma] := htext ▸ hcomma.append_free lexesFree_blank
      rw [commaList_cons]
      have hall := (hlex.mark hsep (by decide) (by decide)).append hlexes
      simpa [List.intercalate] using hall

theorem ReadAs.call {dotted : Bool} {callee : String} (h : ReadAs .primary dotted callee t)
    (hargs : List.Forall₂ (ReadAs .whole false) codes trees) :
    ReadAs .primary true (callee ++ "(" ++ Owl.commaList codes ++ ")") (.call t trees) := by
  obtain ⟨ts, hlex, hread⟩ := h.undotted
  obtain ⟨tss, hreads, hlexes⟩ := ReadAs.commaList hargs
  have hopen : LexesFree "(" [.lparen] := lexesFree_mark (by decide)
  have hclose : LexesFree ")" [.rparen] := lexesFree_mark (by decide)
  have hall := ((hlex.mark hopen (by decide) (by decide)).append hlexes).mark hclose (by decide)
    (by decide)
  refine ⟨_, hall.lexes true, ?_⟩
  rw [List.append_assoc ts]
  exact hread.call hreads

theorem ReadAs.list (h : List.Forall₂ (ReadAs .whole false) codes trees) :
    ReadAs .primary true ("[" ++ Owl.commaList codes ++ "]") (.list trees) := by
  obtain ⟨tss, hreads, hlexes⟩ := ReadAs.commaList h
  have hopen : LexesFree "[" [.lbracket] := lexesFree_mark (by decide)
  have hclose : LexesFree "]" [.rbracket] := lexesFree_mark (by decide)
  refine ⟨_, ((hopen.append hlexes).mark hclose (by decide) (by decide)).lexes true, ?_⟩
  exact .list hreads

/-! ### Choices -/

section Choices

variable {dotted dotted' : Bool} {a b : String} {t u : Tree}

/-- A comparison with the value that stands for nothing, by one word or by two. -/
theorem ReadAs.compareNone (h : ReadAs .sum dotted a t) {mid : String} {symbols : List Symbol}
    {o : Op} (hmid : LexesFree mid symbols) (hblank : mid.toList.head? = some ' ')
    (ho : ∀ rest, comparing? (symbols ++ .name "None" :: rest) = some (o, .name "None" :: rest))
    (hrank : ∀ rest, Stops 4 (symbols ++ rest)) :
    ReadAs .comparison true (a ++ mid ++ "None") (.compare t [(o, .name "None")]) := by
  obtain ⟨ts, hlex, hread⟩ := h
  have hnone : Reads .primary [.name "None"] (.name "None") := .atom fun _ _ _ => rfl
  exact ⟨_, hlex.between hmid hblank (lexes_constant (by decide)),
    .compare ho hrank hread (hnone.weaken (by decide))⟩

theorem ReadAs.isNone (h : ReadAs .sum dotted a t) :
    ReadAs .comparison true (a ++ " is " ++ "None") (.compare t [(.is, .name "None")]) := by
  have hmid : LexesFree " is " [.kwIs] := lexesFree_keyword "is" (by simp [keywords]) (by simp)
  exact h.compareNone hmid (by decide) (fun _ => rfl) fun _ => .cons (by decide) _

theorem ReadAs.isNotNone (h : ReadAs .sum dotted a t) :
    ReadAs .comparison true (a ++ " is not " ++ "None") (.compare t [(.isNot, .name "None")]) := by
  have hword : LexesFree " is " [.kwIs] := lexesFree_keyword "is" (by simp [keywords]) (by simp)
  have hnot : Lexes true "not" [.kwNot] := lexes_keyword (by simp [keywords])
  have hjoined := hword.append_free (hnot.mark lexesFree_blank (by decide) (by decide))
  have htext : " is " ++ ("not" ++ " ") = " is not " := by simp
  have hmid : LexesFree " is not " [.kwIs, .kwNot] := htext ▸ hjoined
  exact h.compareNone hmid (by decide) (fun _ => rfl) fun _ => .cons (by decide) _

theorem ReadAs.both (h : ReadAs .comparison dotted a t) (hu : ReadAs .comparison dotted' b u) :
    ReadAs .conjunction dotted' (a ++ " and " ++ b) (.both t u) := by
  obtain ⟨ts, hlex, hread⟩ := h
  obtain ⟨us, hlex', hread'⟩ := hu
  have hand : LexesFree " and " [.kwAnd] := lexesFree_keyword "and" (by simp [keywords]) (by simp)
  refine ⟨_, hlex.between hand (by decide) hlex', ?_⟩
  rw [List.append_assoc]
  exact hread.both hread'

theorem ReadAs.choose {c : String} {v : Tree} {dotted'' : Bool}
    (h : ReadAs .conjunction dotted a t) (hu : ReadAs .conjunction dotted' b u)
    (hv : ReadAs .whole dotted'' c v) :
    ReadAs .whole dotted'' (a ++ " if " ++ b ++ " else " ++ c) (.choose t u v) := by
  obtain ⟨ts, hlex, hread⟩ := h
  obtain ⟨us, hlex', hread'⟩ := hu
  obtain ⟨vs, hlex'', hread''⟩ := hv
  have hif : LexesFree " if " [.kwIf] := lexesFree_keyword "if" (by simp [keywords]) (by simp)
  have helse : LexesFree " else " [.kwElse] :=
    lexesFree_keyword "else" (by simp [keywords]) (by simp)
  refine ⟨_, (hlex.between hif (by decide) hlex').between helse (by decide) hlex'', ?_⟩
  have htokens : ts ++ [Symbol.kwIf] ++ us ++ [Symbol.kwElse] ++ vs =
      ts ++ Symbol.kwIf :: us ++ Symbol.kwElse :: vs := by
    simp
  rw [htokens]
  exact .choose hread hread' hread''

theorem ReadAs.lambda (hs : isIdentifier s = true) (h : ReadAs .whole dotted a t) :
    ReadAs .whole dotted ("lambda " ++ s ++ ": " ++ a) (.lambda s t) := by
  obtain ⟨ts, hlex, hread⟩ := h
  have hword : Lexes true "lambda" [.kwLambda] := lexes_keyword (by simp [keywords])
  have hcolon : LexesFree ":" [.colon] := lexesFree_mark (by decide)
  have hfirst := hword.mark lexesFree_blank (by decide) (by decide)
  have hsep := hcolon.append_free lexesFree_blank
  have hall := ((hfirst.append (lexes_identifier hs)).mark hsep (by decide) (by decide)).append hlex
  have htexts : "lambda" ++ " " = "lambda " ∧ ":" ++ " " = ": " := by simp
  rw [htexts.1, htexts.2] at hall
  exact ⟨_, hall, hread.lambda s⟩

end Choices

/-! ### Paths -/

def IsPath (s : String) : Prop :=
  ∃ (part : String) (parts : List String), (∀ p ∈ part :: parts, isIdentifier p = true) ∧
    s = ".".intercalate (part :: parts)

/-- The fields that a path names, one after the other. -/
def fieldsTree (t : Tree) (s : String) : Tree := (moduleParts s).foldl .field t

def pathTree (s : String) : Tree :=
  match moduleParts s with
  | [] => .name s
  | part :: parts => parts.foldl .field (.name part)

theorem isWord_of_isIdentifier (h : isIdentifier s = true) : isWord s = true := by
  simp only [isIdentifier, Bool.and_eq_true] at h
  rw [isWord, Bool.and_eq_true, bne_iff_ne]
  refine ⟨?_, h.1.1.1⟩
  rintro rfl
  exact absurd h.1.1.2 (by decide)

theorem wordChars_of_isIdentifier (h : isIdentifier s = true) : s.toList.all isWordChar = true :=
  (Bool.and_eq_true_iff.mp (isWord_of_isIdentifier h)).2

theorem moduleParts_path {part : String} {parts : List String}
    (h : ∀ p ∈ part :: parts, isIdentifier p = true) :
    moduleParts (".".intercalate (part :: parts)) = part :: parts := by
  refine moduleParts_intercalate (by simp) fun p hp hmem => ?_
  have hword := List.all_eq_true.mp (wordChars_of_isIdentifier (h p hp)) '.' hmem
  exact absurd hword (by decide)

theorem ReadAs.fields {a : String} (h : ReadAs .primary true a t) (hs : IsPath s) :
    ReadAs .primary true (a ++ "." ++ s) (fieldsTree t s) := by
  obtain ⟨part, parts, hparts, rfl⟩ := hs
  rw [fieldsTree, moduleParts_path hparts]
  induction parts generalizing a t part with
  | nil =>
    exact h.field (hparts part List.mem_cons_self)
  | cons next parts ih =>
    rw [List.forall_mem_cons] at hparts
    have htext : a ++ "." ++ ".".intercalate (part :: next :: parts) =
        a ++ "." ++ part ++ "." ++ ".".intercalate (next :: parts) := by
      simp [String.append_assoc]
    rw [htext]
    exact ih (h.field hparts.1) next hparts.2

theorem ReadAs.path (hs : IsPath s) : ReadAs .primary true s (pathTree s) := by
  obtain ⟨part, parts, hparts, rfl⟩ := hs
  have hname := ReadAs.name (lexes_identifier (hparts part List.mem_cons_self))
  rw [pathTree, moduleParts_path hparts]
  cases parts with
  | nil =>
    exact hname
  | cons next parts =>
    have hrest : ∀ p ∈ next :: parts, isIdentifier p = true := (List.forall_mem_cons.mp hparts).2
    have hfields := hname.fields ⟨next, parts, hrest, rfl⟩
    rw [fieldsTree, moduleParts_path hrest] at hfields
    have htext : part ++ "." ++ ".".intercalate (next :: parts) =
        ".".intercalate (part :: next :: parts) := by
      simp [String.append_assoc]
    rwa [htext] at hfields

/-! ### Changes that keep a text readable -/

/-- A change of texts, word by word, that makes paths of names.  Other words stay as they are, and
so do the variables of matches. -/
structure Renaming (f : String → String) : Prop where
  wordwise : Wordwise f
  path : ∀ s, isIdentifier s = true → IsPath (f s)
  fixed : ∀ s, s.toList.all isWordChar = true → isIdentifier s = false → f s = s
  matchName : ∀ n : Nat, f ("__match_" ++ toString n) = "__match_" ++ toString n

theorem isPath_of_isIdentifier (h : isIdentifier s = true) : IsPath s :=
  ⟨s, [], by simpa using h, String.intercalate_singleton.symm⟩

theorem isIdentifier_matchName (n : Nat) : isIdentifier ("__match_" ++ toString n) = true := by
  have hhead : ("__match_" ++ toString n).toList.head? = some '_' := by
    rw [String.toList_append]
    rfl
  have hother : ∀ s : String, s.toList.head? ≠ some '_' → s ≠ "__match_" ++ toString n := by
    rintro s hs rfl
    exact hs hhead
  have hkeywords : keywords.all (·.1.toList.head? != some '_') = true := by decide
  have hconstants : constants.all (·.toList.head? != some '_') = true := by decide
  simp only [isIdentifier, Bool.and_eq_true, Bool.not_eq_true', matchName_wordChars, hhead]
  refine ⟨⟨⟨trivial, by decide⟩, ?_⟩, ?_⟩
  · rw [List.any_eq_false]
    intro k hk
    have hne := List.all_eq_true.mp hkeywords k hk
    simpa using hother k.1 (by simpa using hne)
  · rw [List.contains_eq_mem, decide_eq_false_iff_not]
    intro hmem
    have hne := List.all_eq_true.mp hconstants _ hmem
    exact absurd hhead (bne_iff_ne.mp hne)

theorem IsPath.cons {part : String} (hpart : isIdentifier part = true) (h : IsPath s) :
    IsPath (part ++ "." ++ s) := by
  obtain ⟨next, parts, hparts, rfl⟩ := h
  refine ⟨part, next :: parts, List.forall_mem_cons.mpr ⟨hpart, hparts⟩, ?_⟩
  simp [String.append_assoc]

theorem IsPath.chars (h : IsPath s) : ∀ c ∈ s.toList, isWordChar c = true ∨ c = '.' := by
  obtain ⟨part, parts, hparts, rfl⟩ := h
  induction parts generalizing part with
  | nil =>
    intro c hc
    rw [String.intercalate_singleton] at hc
    exact .inl (List.all_eq_true.mp (wordChars_of_isIdentifier (hparts part (by simp))) c hc)
  | cons next parts ih =>
    rw [List.forall_mem_cons] at hparts
    intro c hc
    have htext : ".".intercalate (part :: next :: parts) =
        part ++ "." ++ ".".intercalate (next :: parts) := by
      simp [String.append_assoc]
    rw [htext, String.toList_append, String.toList_append, List.mem_append, List.mem_append] at hc
    rcases hc with (hc | hc) | hc
    · exact .inl (List.all_eq_true.mp (wordChars_of_isIdentifier hparts.1) c hc)
    · exact .inr (List.mem_singleton.mp hc)
    · exact ih next hparts.2 c hc

def escaped (s : String) : String := String.ofList (s.toList.flatMap stringCode.escape)

theorem escape_of_wordChar (h : isWordChar c = true) : stringCode.escape c = [c] := by
  refine escape_of_plain ?_
  rw [Bool.or_eq_false_iff, beq_eq_false_iff_ne, beq_eq_false_iff_ne]
  constructor
  · rintro rfl
    exact absurd h (by decide)
  · rintro rfl
    exact absurd h (by decide)

theorem flatMap_escape_word {w : List Char} (h : w.all isWordChar = true) :
    w.flatMap stringCode.escape = w := by
  induction w with
  | nil => rfl
  | cons c w ih =>
    rw [List.all_cons, Bool.and_eq_true] at h
    rw [List.flatMap_cons, escape_of_wordChar h.1, ih h.2, List.singleton_append]

/-- What is escaped is passed over. -/
theorem scanString_escape (h : isLineBreak c = false) (rest : List Char) :
    scanString '"' (stringCode.escape c ++ rest) =
      (scanString '"' rest).map fun r => (stringCode.escape c ++ r.1, r.2) := by
  by_cases hspecial : (c == '\\' || c == '"') = true
  · rw [escape_of_special hspecial, List.cons_append, List.singleton_append, scanString, h,
      if_neg Bool.false_ne_true]
    rfl
  · rw [Bool.not_eq_true] at hspecial
    rw [escape_of_plain hspecial, List.singleton_append, scanString_of_plain hspecial, h,
      if_neg Bool.false_ne_true]
    rfl

theorem isMark_escape (h : isWordChar c = false) :
    isMark (String.ofList (stringCode.escape c)) = true := by
  by_cases hspecial : (c == '\\' || c == '"') = true
  · have hslash : isWordChar '\\' = false := by decide
    rw [escape_of_special hspecial]
    simp [isMark, h, hslash]
  · rw [Bool.not_eq_true] at hspecial
    rw [escape_of_plain hspecial]
    simp [isMark, h]

namespace Renaming

theorem id : Renaming fun s => s :=
  ⟨.id, fun _ => isPath_of_isIdentifier, fun _ _ _ => rfl, fun _ => rfl⟩

variable {f : String → String} (hf : Renaming f)

include hf

/-- What an arm makes of its value, and what is made of that. -/
theorem bind {p : Pattern} (hp : p.isReadable = true) (n : Nat) :
    Renaming fun s => f (p.bind ("__match_" ++ toString n) s) := by
  cases hbinds : p.binding? with
  | none =>
    simp only [Pattern.bind_of_not_binding hbinds]
    exact hf
  | some b =>
    rw [Pattern.isReadable, hbinds, Option.all_some, Bool.and_eq_true, Bool.not_eq_true'] at hp
    have hb := isWord_of_isIdentifier hp.1
    simp only [Pattern.bind_of_binding? hbinds]
    refine ⟨(isWord.wordwise hb _).comp hf.wordwise, fun s hs => ?_, fun s hword hs => ?_,
      fun k => ?_⟩
    · by_cases hsame : s = b
      · -- The name becomes a part of the variable, which is a path that may be changed again.
        have hpart : isIdentifier p.part = true := by
          have hvalue : isIdentifier "value" = true := by decide
          have herror : isIdentifier "error" = true := by decide
          cases p with
          | err => exact herror
          | _ => exact hvalue
        rw [hsame, replaceWord_self hb, partCode, hf.wordwise.between _ (by decide), hf.matchName]
        exact .cons (isIdentifier_matchName n) (hf.path _ hpart)
      · rw [replaceWord_of_word hb _ (wordChars_of_isIdentifier hs), if_neg hsame]
        exact hf.path s hs
    · have hne : s ≠ b := by
        rintro rfl
        rw [hp.1] at hs
        cases hs
      rw [replaceWord_of_word hb _ hword, if_neg hne]
      exact hf.fixed s hword hs
    · rw [replaceWord_matchName hb hp.2, hf.matchName]

/-- A text in which no word is a name stays as it is. -/
theorem of_words (h : (wordsOf s).all (!isIdentifier ·) = true) : f s = s := by
  refine hf.wordwise.of_words fun w hmem hw => hf.fixed w hw ?_
  simpa using List.all_eq_true.mp h w hmem

theorem chars {w : String} (hw : w.toList.all isWordChar = true) :
    ∀ c ∈ (f w).toList, isWordChar c = true ∨ c = '.' := by
  by_cases hname : isIdentifier w = true
  · exact (hf.path w hname).chars
  · rw [hf.fixed w hw (Bool.eq_false_iff.mpr hname)]
    exact fun c hc => .inl (List.all_eq_true.mp hw c hc)

/-- What becomes of a word can stand in a string. -/
theorem plain {w : String} (hw : w.toList.all isWordChar = true) {q : Char}
    (hq : (q == '"' || q == '\x27') = true) :
    ∀ c ∈ (f w).toList, (c == '\\' || c == q) = false ∧ isLineBreak c = false := by
  have hne : ∀ c ∈ (f w).toList, ∀ d, isWordChar d = false → d ≠ '.' → c ≠ d := by
    rintro c hc d hd hdot rfl
    rcases hf.chars hw c hc with hword | hpoint
    · rw [hd] at hword
      cases hword
    · exact hdot hpoint
  have hquote : isWordChar q = false ∧ q ≠ '.' := by
    rw [Bool.or_eq_true, beq_iff_eq, beq_iff_eq] at hq
    rcases hq with rfl | rfl <;> decide
  intro c hc
  rw [isLineBreak, Bool.or_eq_false_iff, Bool.or_eq_false_iff]
  simp only [beq_eq_false_iff_ne]
  exact ⟨⟨hne c hc '\\' (by decide) (by decide), hne c hc q hquote.1 hquote.2⟩,
    hne c hc '\n' (by decide) (by decide), hne c hc '\r' (by decide) (by decide)⟩

/-! ### Numbers and strings -/

theorem numeral (h : IsNumeral cs) : f (String.ofList cs) = String.ofList cs := by
  -- The words of a numeral start with digits, so none of them is a name.
  have hword : ∀ ds more : List Char, IsDigits ds → more.all isWordChar = true →
      f (String.ofList (ds ++ more)) = String.ofList (ds ++ more) := by
    intro ds more hds hmore
    refine hf.fixed _ ?_ ?_
    · rw [String.toList_ofList, List.all_append, hmore, Bool.and_true, List.all_eq_true]
      exact fun c hc => isWordChar_of_isDigit (hds.2 c hc)
    · cases ds with
      | nil => exact absurd rfl hds.1
      | cons d ds =>
        have hd : d.isDigit = true := hds.2 d List.mem_cons_self
        simp [isIdentifier, hd]
  have hdigits : ∀ ds : List Char, IsDigits ds → f (String.ofList ds) = String.ofList ds := by
    intro ds hds
    simpa using hword ds [] hds rfl
  have hsplit : ∀ (w : List Char) (c : Char) (rest : List Char), isWordChar c = false →
      f (String.ofList w) = String.ofList w → f (String.ofList rest) = String.ofList rest →
      f (String.ofList (w ++ c :: rest)) = String.ofList (w ++ c :: rest) := by
    intro w c rest hc hw hrest
    have htext : String.ofList (w ++ c :: rest) =
        String.ofList w ++ String.ofList [c] ++ String.ofList rest := by
      simp [← String.toList_inj]
    rw [htext, hf.wordwise.between _ (by simp [isMark, hc]), hw, hrest]
  have hpoint : isWordChar '.' = false := by decide
  have hexponent : ∀ ds es : List Char, IsDigits ds → IsExponent es →
      f (String.ofList (ds ++ 'e' :: es)) = String.ofList (ds ++ 'e' :: es) := by
    intro ds es hds hes
    have hfirst := hword ds ['e'] hds (by decide)
    have hplus : isWordChar '+' = false := by decide
    have hminus : isWordChar '-' = false := by decide
    cases hes with
    | @plus es hes => simpa using hsplit (ds ++ ['e']) '+' es hplus hfirst (hdigits es hes)
    | @minus es hes => simpa using hsplit (ds ++ ['e']) '-' es hminus hfirst (hdigits es hes)
  cases h with
  | whole hds => exact hdigits cs hds
  | @point ds fs hds hfs => exact hsplit ds '.' fs hpoint (hdigits ds hds) (hdigits fs hfs)
  | @exponent ds es hds hes => exact hexponent ds es hds hes
  | @both ds fs es hds hfs hes =>
    exact hsplit ds '.' _ hpoint (hdigits ds hds) (hexponent fs es hfs hes)

/-- A changed string ends where it should. -/
theorem scanString_eq (h : cs.any isLineBreak = false) (rest : List Char) :
    scanString '"' ((f (String.ofList (cs.flatMap stringCode.escape))).toList ++ '"' :: rest) =
      some ((f (String.ofList (cs.flatMap stringCode.escape))).toList, rest) := by
  have hend : scanString '"' ('"' :: rest) = some ([], rest) := by simp [scanString]
  -- The words of the string are changed one by one; no escape is cut in two.
  induction cs using words_induction with
  | word w hw =>
    have hw' : (String.ofList w).toList.all isWordChar = true := by rwa [String.toList_ofList]
    rw [flatMap_escape_word hw, scanString_plain (hf.plain hw' (by decide)), hend]
    simp
  | cut w c cs hw hc ih =>
    have hw' : (String.ofList w).toList.all isWordChar = true := by rwa [String.toList_ofList]
    rw [List.any_append, List.any_cons, Bool.or_eq_false_iff, Bool.or_eq_false_iff] at h
    have htext : String.ofList ((w ++ c :: cs).flatMap stringCode.escape) =
        String.ofList w ++ String.ofList (stringCode.escape c) ++
          String.ofList (cs.flatMap stringCode.escape) := by
      rw [← String.toList_inj, List.flatMap_append, List.flatMap_cons, flatMap_escape_word hw]
      simp
    rw [htext, hf.wordwise.between _ (isMark_escape hc), String.toList_append, String.toList_append,
      String.toList_ofList, List.append_assoc, List.append_assoc,
      scanString_plain (hf.plain hw' (by decide)), scanString_escape h.2.1, ih h.2.2]
    simp

theorem string (h : s.toList.any isLineBreak = false) :
    ReadAs .primary true (f (stringCode s)) (.string (f (escaped s))) := by
  have hquotes : f (stringCode s) = "\"" ++ f (escaped s) ++ "\"" := by
    rw [stringCode, ← escaped, hf.wordwise.enclosed (by decide) (by decide)
      (hf.wordwise.blank "\"" (by decide)) (hf.wordwise.blank "\"" (by decide))]
  have hlex : LexesFree ("\"" ++ f (escaped s) ++ "\"") [.string (f (escaped s))] :=
    lexes_quoted (by decide) (hf.scanString_eq h)
  rw [hquotes]
  exact ⟨_, hlex.lexes true, .atom fun _ _ _ => rfl⟩

end Renaming

end Target

end Owl
