/-
Trees stand at the places of their tokens.

Different tokens stand at different places, and no two nodes of one kind that a
tree is read into start with the same token.  So the sites of a program that was
read from a text are all different.

* `Expr.Read.stands`, `Stmt.Read.stands` — trees stand at the tokens they are built from.
-/
import Owl.Proofs.Checking.Account
import Owl.Proofs.Derivation

namespace Owl

open Owl.Parser

variable {us tokens : List Token} {t : Token} {e : Expr} {s : Stmt}

/-! ### Places -/

def StartsIn (span? : Option Span) (us : List Token) : Prop :=
  ∃ t ∈ us, span?.map Span.start = some t.pos

namespace StartsIn

variable {span?' span?'' : Option Span} {us vs : List Token}

theorem token {span : Span} (h : span.start = t.pos) (hmem : t ∈ us) : StartsIn (some span) us :=
  ⟨t, hmem, congrArg some h⟩

theorem subset (h : StartsIn span?' us) (hsub : us ⊆ vs) : StartsIn span?' vs := by
  obtain ⟨t, ht, hstart⟩ := h
  exact ⟨t, hsub ht, hstart⟩

theorem merge {a b : Span} (ha : StartsIn (some a) us) (hb : StartsIn (some b) us) :
    StartsIn (some (a.merge b)) us := by
  rw [StartsIn, Option.map_some, Span.merge]
  split
  · exact ha
  · exact hb

theorem mergeSpans? (h : StartsIn span?' us) (h' : StartsIn span?'' us) :
    StartsIn (Owl.mergeSpans? span?' span?'') us := by
  cases span?' with
  | none => exact h'
  | some a =>
    cases span?'' with
    | none => exact h
    | some b => exact h.merge h'

theorem extend {a : Span} (h : StartsIn (some a) us) (h' : StartsIn span?' us) :
    StartsIn (some (Owl.extend a span?')) us := by
  cases span?' with
  | none => exact h
  | some b => exact h.merge h'

theorem extendLeft {b : Span} (h : StartsIn (some b) us) (h' : StartsIn span?' us) :
    StartsIn (some ((span?'.map (·.merge b)).getD b)) us := by
  cases span?' with
  | none => exact h
  | some a => exact h'.merge h

theorem getD (b : Span) (h : StartsIn span?' us) : StartsIn (some (span?'.getD b)) us := by
  cases span?' with
  | none =>
    obtain ⟨t, -, hstart⟩ := h
    cases hstart
  | some a => exact h

end StartsIn

def places (us : List Token) : List (Option Position) := us.map fun t => some t.pos

theorem places_append (us vs : List Token) : places (us ++ vs) = places us ++ places vs :=
  List.map_append

/-- Every site is of one of the kinds, and for each kind, every site has a token of its own. -/
def Placed (kinds : List SiteKind) (sites : Multiset Site) (us : List Token) : Prop :=
  ∀ site : Site, sites.count site ≤ if site.kind ∈ kinds then (places us).count site.pos? else 0

namespace Placed

variable {kinds : List SiteKind} {sites sites' : Multiset Site} {us vs : List Token}

theorem zero (kinds : List SiteKind) (us : List Token) : Placed kinds 0 us :=
  fun site => by rw [Multiset.count_zero]; exact Nat.zero_le _

/-- Sites of parts, each in the tokens of its part. -/
theorem append (h : Placed kinds sites us) (h' : Placed kinds sites' vs) :
    Placed kinds (sites + sites') (us ++ vs) := by
  intro site
  have hsite := h site
  have hsite' := h' site
  rw [Multiset.count_add, places_append, List.count_append]
  split
  · next hkind =>
    rw [if_pos hkind] at hsite hsite'
    exact Nat.add_le_add hsite hsite'
  · next hkind =>
    rw [if_neg hkind] at hsite hsite'
    exact Nat.add_le_add hsite hsite'

theorem sublist (h : Placed kinds sites us) (hsub : us.Sublist vs) : Placed kinds sites vs := by
  intro site
  refine (h site).trans ?_
  split
  · exact (hsub.map _).count_le _
  · exact Nat.le_refl 0

theorem cons (h : Placed kinds sites us) (t : Token) : Placed kinds sites (t :: us) :=
  h.sublist (List.sublist_cons_self t us)

theorem singleton {kind : SiteKind} {pos? : Option Position} (h : pos? ∈ places us) :
    Placed [kind] {⟨kind, pos?⟩} us := by
  intro site
  by_cases hsite : site = ⟨kind, pos?⟩
  · subst hsite
    rw [if_pos (List.mem_singleton.mpr rfl), Multiset.count_singleton_self]
    exact List.one_le_count_iff.mpr h
  · rw [Multiset.count_singleton, if_neg hsite]
    exact Nat.zero_le _

/-- Sites of different kinds may share their tokens. -/
theorem add {kinds' : List SiteKind} (h : Placed kinds sites us) (h' : Placed kinds' sites' us)
    (hdisjoint : ∀ kind ∈ kinds, kind ∉ kinds') : Placed (kinds ++ kinds') (sites + sites') us := by
  intro site
  have hsite := h site
  have hsite' := h' site
  rw [Multiset.count_add]
  by_cases hkind : site.kind ∈ kinds
  · rw [if_neg (hdisjoint _ hkind)] at hsite'
    rw [if_pos hkind] at hsite
    rw [if_pos (List.mem_append_left _ hkind)]
    exact Nat.add_le_add hsite hsite'
  · rw [if_neg hkind] at hsite
    by_cases hkind' : site.kind ∈ kinds'
    · rw [if_pos hkind'] at hsite'
      rw [if_pos (List.mem_append_right _ hkind')]
      omega
    · rw [if_neg hkind'] at hsite'
      rw [if_neg (by simp [hkind, hkind'])]
      omega

theorem kinds_mono {kinds' : List SiteKind} (h : Placed kinds sites us) (hsub : kinds ⊆ kinds') :
    Placed kinds' sites us := by
  intro site
  refine (h site).trans ?_
  by_cases hkind : site.kind ∈ kinds
  · rw [if_pos hkind, if_pos (hsub hkind)]
  · rw [if_neg hkind]
    exact Nat.zero_le _

end Placed

abbrev exprKinds : List SiteKind := [.matching, .condition]

/-- The kinds of site that can be inside of a statement. -/
abbrev innerKinds : List SiteKind := .endless :: exprKinds

theorem Placed.inner {sites : Multiset Site} (h : Placed exprKinds sites us) :
    Placed innerKinds sites us :=
  h.kinds_mono (List.subset_cons_self ..)

/-- An expression starts at one of its tokens, and its sites are placed in them. -/
structure Expr.Stands (e : Expr) (us : List Token) : Prop where
  starts : StartsIn e.span? us
  placed : Placed exprKinds e.sites us

/-- A statement starts at one of its tokens, and its sites are placed in them. -/
structure Stmt.Stands (s : Stmt) (us : List Token) : Prop where
  starts : StartsIn s.span? us
  placed : Placed innerKinds s.sites us
  ignored : Placed [.ignored] s.ignoredSites us

/-! ### Expressions -/

variable {file : String}

/-- An expression without sites that starts at a token. -/
theorem Expr.Stands.literal (hspan : e.span? = some (t.span file)) (hsites : e.sites = 0) :
    e.Stands [t] := by
  refine ⟨?_, ?_⟩
  · rw [hspan]
    exact .token rfl (List.mem_singleton_self t)
  · rw [hsites]
    exact .zero _ _

/-- An expression with one part, in front of a token. -/
theorem Expr.Stands.suffixed {base : Expr} (h : base.Stands us)
    (hspan : e.span? = some ((base.span?.map (·.merge (t.span file))).getD (t.span file)))
    (hsites : e.sites = base.sites) : e.Stands (us ++ [t]) := by
  refine ⟨?_, ?_⟩
  · rw [hspan]
    exact .extendLeft (.token rfl List.mem_concat_self)
      (h.starts.subset (List.subset_append_left us [t]))
  · rw [hsites]
    exact h.placed.sublist (List.sublist_append_left us [t])

mutual

theorem Expr.Read.stands : ∀ {e : Expr} {us : List Token}, e.Read file us → e.Stands us
  | _, _, .int .. | _, _, .float .. | _, _, .string .. | _, _, .bool .. | _, _, .name .. =>
    .literal rfl rfl
  | _, _, .binary hleft _ hright => by
    refine ⟨?_, ?_⟩
    · exact .mergeSpans? (hleft.stands.starts.subset (List.subset_append_left _ _))
        (hright.stands.starts.subset (List.subset_append_right _ _))
    · exact hleft.stands.placed.append hright.stands.placed
  | _, _, .unary op hoperand => by
    refine ⟨.extend (.token rfl (List.mem_cons_self ..)) ?_, ?_⟩
    · exact hoperand.stands.starts.subset (List.subset_cons_self ..)
    · exact hoperand.stands.placed.cons op
  | _, _, .call hcallee opening hargs closing => by
    refine ⟨.merge (.getD _ (hcallee.stands.starts.subset ?_)) (.token rfl ?_), ?_⟩
    · simp
    · simp
    · exact (hcallee.stands.placed.append (exprsSites_placed hargs)).sublist
        (List.sublist_append_left _ _)
  | _, _, .field hfirst _ | _, _, .propagate hfirst _ =>
    hfirst.stands.suffixed rfl (by rw [Expr.sites])
  | _, _, .list opening helements closing => by
    refine ⟨.merge (.token rfl (by simp)) (.token rfl (by simp)), ?_⟩
    exact ((exprsSites_placed helements).sublist (List.sublist_append_left _ _)).cons opening
  | _, _, .matching keyword hsubject harms => by
    -- A match is reported at its keyword, which is no token of its parts.
    have hkeyword : Placed exprKinds {⟨.matching, some keyword.pos⟩} [keyword] :=
      (Placed.singleton (by simp [places])).kinds_mono (by simp)
    refine ⟨.token rfl (List.mem_cons_self ..), ?_⟩
    exact hkeyword.append (hsubject.stands.placed.append (armsSites_placed harms))

theorem exprsSites_placed : ∀ {es : List Expr} {us : List Token}, Parts (Expr.Read file) es us →
    Placed exprKinds (exprsSites es) us
  | _, _, .nil => .zero _ _
  | _, _, .cons hfirst hmore => by
    exact hfirst.stands.placed.append (exprsSites_placed hmore)

theorem armsSites_placed : ∀ {arms : List Arm} {us : List Token}, Parts (Arm.Read file) arms us →
    Placed exprKinds (armsSites arms) us
  | _, _, .nil => .zero _ _
  | _, _, .cons (.mk name _ hbody) hmore => by
    exact (hbody.stands.placed.cons name).append (armsSites_placed hmore)

end

/-! ### Statements -/

/-- A statement that is not an expression throws no value away. -/
theorem Stmt.Stands.of_ne_expr (hstarts : StartsIn s.span? us)
    (hplaced : Placed innerKinds s.sites us) (hignored : s.ignoredSites = 0) : s.Stands us :=
  ⟨hstarts, hplaced, hignored ▸ .zero _ _⟩

/-- A constant condition is reported at its token, and has no other sites. -/
theorem Expr.Stands.condition (h : e.Stands us) :
    Placed exprKinds (e.conditionSites + e.sites) us := by
  cases e with
  | bool value span? =>
    obtain ⟨t, ht, hstart⟩ := h.starts
    obtain ⟨span, rfl, hspan⟩ := Option.map_eq_some_iff.mp hstart
    have hplace : some span.start ∈ places us := List.mem_map.mpr ⟨t, ht, by rw [hspan]⟩
    exact (Placed.singleton hplace).kinds_mono (by simp)
  | _ =>
    show Placed exprKinds (0 + _) us
    rw [zero_add]
    exact h.placed

/-- A statement that has a span drawn out to the end of its value. -/
theorem Stmt.Stands.of_value {value : Expr} {vs : List Token} (h : value.Stands us)
    (hspan : s.span? = some (extend (t.span file) value.span?)) (hsites : s.sites = value.sites)
    (hignored : s.ignoredSites = 0) (hmem : t ∈ vs) (hsub : us.Sublist vs) : s.Stands vs := by
  refine .of_ne_expr ?_ ?_ hignored
  · rw [hspan]
    exact .extend (.token rfl hmem) (h.starts.subset hsub.subset)
  · rw [hsites]
    exact h.placed.inner.sublist hsub

theorem Stmt.Stands.of_keyword {keyword : Token} (hspan : s.span? = some (keyword.span file))
    (h : Placed innerKinds s.sites us) (hignored : s.ignoredSites = 0) :
    s.Stands (keyword :: us) := by
  refine .of_ne_expr ?_ (h.cons keyword) hignored
  rw [hspan]
  exact .token rfl (List.mem_cons_self ..)

/-- A value that is thrown away is reported where its statement starts. -/
theorem Stmt.Stands.of_expr (h : e.Stands us) : (Stmt.expr e e.span?).Stands us := by
  obtain ⟨t, ht, hstart⟩ := h.starts
  obtain ⟨span, hspan, hpos⟩ := Option.map_eq_some_iff.mp hstart
  have hplace : some e.place.start ∈ places us := by
    rw [Expr.place, hspan]
    exact List.mem_map.mpr ⟨t, ht, by rw [← hpos]; rfl⟩
  refine ⟨h.starts, ?_, .singleton hplace⟩
  exact h.placed.inner

mutual

theorem Stmt.Read.stands : ∀ {s : Stmt} {us : List Token}, s.Read file us → s.Stands us
  | _, _, .letVar _ _ _ _ hvalue =>
    .of_value hvalue.stands rfl (by rw [Stmt.sites]) rfl (List.mem_cons_self ..)
      (.cons _ (List.sublist_cons_self ..))
  | _, _, .assign _ hvalue | _, _, .retValue _ hvalue =>
    .of_value hvalue.stands rfl (by rw [Stmt.sites]) rfl (List.mem_cons_self ..)
      (List.sublist_cons_self ..)
  | _, _, .expr he => .of_expr he.stands
  | _, _, .ret _ | _, _, .breakLoop _ | _, _, .continueLoop _ => .of_keyword rfl (.zero _ _) rfl
  | _, _, .whileLoop _ hcondition hbody | _, _, .ifThen _ hcondition hbody => by
    refine .of_keyword rfl ?_ rfl
    exact hcondition.stands.condition.inner.append (stmtsSites_placed hbody)
  | _, _, .forLoop _ item hcollection hbody => by
    refine .of_keyword rfl ?_ rfl
    exact (hcollection.stands.placed.inner.append (stmtsSites_placed hbody)).cons item
  | _, _, .loop keyword hbody => by
    have hkeyword : Placed innerKinds {⟨.endless, some keyword.pos⟩} [keyword] :=
      (Placed.singleton (by simp [places])).kinds_mono (by simp)
    refine .of_ne_expr (.token rfl (List.mem_cons_self ..)) ?_ rfl
    rw [Stmt.sites, add_comm]
    split
    · exact (Placed.zero _ [keyword]).append (stmtsSites_placed hbody)
    · exact hkeyword.append (stmtsSites_placed hbody)
  | _, _, .ifElse _ hcondition hthen helse => by
    refine .of_keyword rfl ?_ rfl
    rw [Stmt.sites]
    have hbodies := (stmtsSites_placed hthen).append (stmtsSites_placed helse)
    exact hcondition.stands.condition.inner.append hbodies

theorem stmtsSites_placed : ∀ {ss : List Stmt} {us : List Token}, Parts (Stmt.Read file) ss us →
    Placed innerKinds (stmtsSites ss) us
  | _, _, .nil => .zero _ _
  | _, _, .cons hfirst hmore => by
    exact hfirst.stands.placed.append (stmtsSites_placed hmore)

end

/-! ### Programs -/

abbrev allKinds : List SiteKind :=
  [SiteKind.unreachable] ++ (innerKinds ++ [SiteKind.ignored])

/-- A statement of a function body may be reported as out of reach and as thrown away, at one
place. -/
theorem bodySites_placed {ss : List Stmt} (h : Parts (Stmt.Read file) ss us) :
    Placed allKinds (bodySites ss) us := by
  induction h with
  | nil => exact .zero _ _
  | @cons s ss us vs hfirst _ ih =>
    have hstands := hfirst.stands
    obtain ⟨t, ht, hstart⟩ := hstands.starts
    have hplace : s.span?.map Span.start ∈ places us := List.mem_map.mpr ⟨t, ht, hstart.symm⟩
    have hinner := hstands.placed.add hstands.ignored (by decide)
    exact ((Placed.singleton hplace).add hinner (by decide)).append ih

def Item.sites : Item → Multiset Site
  | .function fn => fn.sites
  | .stmt s => s.sites
  | .importing _ | .fault _ => 0

def itemsSites : List Item → Multiset Site
  | [] => 0
  | i :: items => i.sites + itemsSites items

theorem Item.Read.placed {i : Item} (h : i.Read file us) : Placed allKinds i.sites us := by
  cases h with
  | importing _ => exact .zero _ _
  | stmt hs => exact hs.stands.placed.kinds_mono (by decide)
  | function hfn =>
    obtain ⟨keyword, name, _, _, hbody⟩ := hfn
    exact ((bodySites_placed hbody).cons name).cons keyword

theorem itemsSites_placed {items : List Item} (h : Parts (Item.Read file) items us) :
    Placed allKinds (itemsSites items) us := by
  induction h with
  | nil => exact .zero _ _
  | cons hfirst _ ih => exact hfirst.placed.append ih

theorem Reading.program_sites (r : Reading) : r.program.sites = itemsSites r.items := by
  obtain ⟨items, stop?, rest⟩ := r
  induction items with
  | nil => rfl
  | cons i items ih =>
    rw [itemsSites, ← ih]
    cases i with
    | importing i => exact (zero_add _).symm
    | fault e => exact (zero_add _).symm
    | function fn => exact add_assoc _ _ _
    | stmt s => exact add_left_comm _ _ _

/-! ### Different places -/

/-- What is read on has another place. -/
theorem Position.behind_append_ne (cs ds : List Char) (h : ds ≠ []) :
    Position.behind (cs ++ ds) ≠ Position.behind cs := by
  intro heq
  obtain ⟨hline, hcolumn⟩ := Position.mk.inj heq
  have hcount : ds.count '\n' = 0 := by
    rw [List.count_append] at hline
    omega
  -- Without a line feed, the columns go on by one for each character.
  have hnone : ∀ c ∈ ds.reverse, (c != '\n') = true := by
    intro c hc
    rw [bne_iff_ne]
    rintro rfl
    exact List.count_eq_zero.mp hcount (List.mem_reverse.mp hc)
  rw [List.reverse_append, List.takeWhile_append_of_pos hnone, List.length_append,
    List.length_reverse] at hcolumn
  have hpos := List.length_pos_iff.mpr h
  omega

/-- Every token of a tiling stands behind a part of the text that leaves something over. -/
theorem Tiled.pos_eq {before text rest : List Char} (h : Tiled before text rest tokens) :
    ∀ t ∈ tokens, ∃ front back : List Char, text = front ++ back ∧ back ≠ [] ∧
      t.pos = .behind (before ++ front) := by
  induction h with
  | gap => simp
  | @token before gap lexeme text rest t tokens isGap isLexeme place _ ih =>
    intro u hu
    rcases List.mem_cons.mp hu with rfl | hu
    · refine ⟨gap, lexeme ++ text, List.append_assoc .., ?_, place⟩
      simp [isLexeme.ne_nil]
    · obtain ⟨front, back, rfl, hback, hpos⟩ := ih u hu
      refine ⟨gap ++ lexeme ++ front, back, by simp, hback, ?_⟩
      rw [hpos]
      simp

theorem Tiled.positions_nodup {before text rest : List Char} (h : Tiled before text rest tokens) :
    (tokens.map Token.pos).Nodup := by
  induction h with
  | gap => exact List.nodup_nil
  | @token before gap lexeme text rest t tokens isGap isLexeme place more ih =>
    refine List.nodup_cons.mpr ⟨?_, ih⟩
    intro hmem
    obtain ⟨u, hu, hpos⟩ := List.mem_map.mp hmem
    obtain ⟨front, back, -, -, hbehind⟩ := more.pos_eq u hu
    -- Behind the lexeme there is at least the lexeme more in front.
    refine Position.behind_append_ne (before ++ gap) (lexeme ++ front) ?_ ?_
    · simp [isLexeme.ne_nil]
    · rw [← place, ← hpos, hbehind]
      simp

/-- The tokens of a text stand at different places. -/
theorem positions_nodup {source : String} (h : tokenize source = .ok tokens) :
    (tokens.map Token.pos).Nodup := by
  have htiles := Lexed.tiles_lex source
  rw [Lexed.Tiles] at htiles
  rw [tokenize] at h
  cases herror : (lex source).error? with
  | some e =>
    rw [herror] at h
    cases h
  | none =>
    rw [herror] at h htiles
    obtain ⟨body, hbody, htiled⟩ := htiles
    obtain rfl := (Except.ok.inj h).symm
    rw [hbody, List.map_append, List.nodup_append]
    refine ⟨htiled.positions_nodup, List.nodup_singleton _, ?_⟩
    intro pos hpos last hlast
    obtain ⟨t, ht, rfl⟩ := List.mem_map.mp hpos
    obtain rfl := List.mem_singleton.mp hlast
    obtain ⟨front, back, hsource, hback, hbehind⟩ := htiled.pos_eq t ht
    rw [hbehind]
    show Position.behind ([] ++ front) ≠ Position.behind ([] ++ source.toList)
    rw [hsource, ← List.append_assoc]
    exact (Position.behind_append_ne _ back hback).symm

theorem places_nodup {source : String} (h : tokenize source = .ok tokens) :
    (places tokens).Nodup := by
  have hmap : places tokens = (tokens.map Token.pos).map some := (List.map_map ..).symm
  rw [hmap]
  exact (positions_nodup h).map (Option.some_injective _)

/-- The sites of a program that was read from a text are different. -/
theorem sites_nodup_of_parse {source file : String} {p : Program}
    (h : tokenize source = .ok tokens) (hp : parse file tokens = .ok p) : p.sites.Nodup := by
  obtain ⟨us, hus, hitems, rfl⟩ := parse_read hp
  have hplaced := (itemsSites_placed hitems).sublist hus
  rw [← Reading.program_sites] at hplaced
  rw [Multiset.nodup_iff_count_le_one]
  intro site
  have hcount := List.nodup_iff_count_le_one.mp (places_nodup h) site.pos?
  refine (hplaced site).trans ?_
  split
  · exact hcount
  · exact Nat.zero_le 1

end Owl
