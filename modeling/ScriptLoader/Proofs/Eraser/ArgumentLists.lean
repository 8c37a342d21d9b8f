import Mathlib
import ScriptLoader.Proofs.Core.Dropping
import ScriptLoader.Proofs.Eraser.Brackets

/-!
# Where a list of type arguments ends

The lexer cannot tell the angle brackets of a list from comparisons. What reads like a list is said here without the search for its end
(`ArgumentList`): the last token is the first behind which as many angle brackets are closed as opened, the other brackets are nested, and
between them stands nothing that ends a statement or belongs to no type. The search finds the end of a list where there is one, and else
nothing (`argumentList_found_iff`). So what is taken out with a list holds the partner of each of its brackets, and each of its semicolons
stands in brackets (`SelfContained`).
-/

namespace ScriptLoader.Syntax

/-! ## Nested brackets -/

namespace Bracket

/-- Brackets that are nested: each is closed by its own partner, with nested brackets between the two. -/
inductive Nested : List Token → Prop where
  | nil : Nested []
  | other {t : Token} {ts : List Token} (ht : IsNone t) (h : Nested ts) : Nested (t :: ts)
  | group (b : Bracket) {t u : Token} {inner ts : List Token} (ht : t.text = b.opener) (hu : u.text = b.closer)
      (hinner : Nested inner) (h : Nested ts) : Nested (t :: inner ++ u :: ts)

/-- The tokens close the brackets that are open, innermost first, with nested brackets before, between and behind. -/
def ClosesAll : (opened : List Bracket) → List Token → Prop
  | [], ts => Nested ts
  | b :: opened, ts => ∃ inner u rest, ts = inner ++ u :: rest ∧ Nested inner ∧ u.text = b.closer ∧ ClosesAll opened rest

variable {opened : List Bracket} {t : Token} {ts us : List Token}

theorem Nested.append (h : Nested ts) (h' : Nested us) : Nested (ts ++ us) := by
  induction h with
  | nil => exact h'
  | other ht _ ih => exact .other ht ih
  | group b ht hu hinner _ _ ih =>
    rw [List.append_assoc, List.cons_append]
    exact .group b ht hu hinner ih

/-- Behind nested brackets the same brackets are open as before them. -/
theorem Nested.behind (h : Nested ts) (opened : List Bracket) : behind opened ts = some opened := by
  induction h generalizing opened with
  | nil => rfl
  | other ht _ ih => rw [behind_cons_of_isNone ht, ih]
  | group b ht hu _ _ ihinner ih =>
    rw [List.cons_append, behind_cons, after_of_opener ht, Option.bind_some, behind_append, ihinner, Option.bind_some, behind_cons,
      after_of_closer hu, Option.bind_some, ih]

/-- Nested brackets in front make no difference. -/
theorem ClosesAll.prepend (hus : Nested us) (h : ClosesAll opened ts) : ClosesAll opened (us ++ ts) := by
  cases opened with
  | nil => exact hus.append h
  | cons b opened =>
    obtain ⟨inner, u, rest, rfl, hinner, hu, hrest⟩ := h
    exact ⟨us ++ inner, u, rest, (List.append_assoc us inner _).symm, hus.append hinner, hu, hrest⟩

theorem closesAll_of_behind (h : behind opened ts = some []) : ClosesAll opened ts := by
  induction ts generalizing opened with
  | nil =>
    obtain rfl := Option.some.inj h
    exact .nil
  | cons t ts ih =>
    rw [behind_cons] at h
    obtain ⟨opened', hafter, hbehind⟩ := Option.bind_eq_some_iff.mp h
    have hrest := ih hbehind
    rcases after_cases hafter with ⟨b, ht, rfl⟩ | ⟨b, ht, rfl⟩ | ⟨hnone, rfl⟩
    · -- what closes the new bracket makes a group with it, in front of what closes the others
      obtain ⟨inner, u, rest, rfl, hinner, hu, hrest⟩ := hrest
      have hgroup : Nested (t :: inner ++ [u]) := .group b ht hu hinner .nil
      rw [List.append_cons, ← List.cons_append]
      exact hrest.prepend hgroup
    · exact ⟨[], t, ts, rfl, .nil, ht, hrest⟩
    · exact hrest.prepend (.other hnone .nil)

/-- Nested brackets are those of which none is open behind them all. -/
theorem nested_iff_balanced (ts : List Token) : Nested ts ↔ Balanced ts := by
  rw [balanced_iff]
  exact ⟨fun h => h.behind [], closesAll_of_behind⟩

end Bracket

/-! ## Lists -/

/-- How many more angle brackets the tokens open than they close. -/
def angleDepth (ts : List Token) : Int :=
  ts.countP (·.text = "<") - ts.countP (·.text = ">") - 2 * ts.countP (·.text = ">>") - 3 * ts.countP (·.text = ">>>")

/-- A token that may stand in a list of type arguments: a bracket of any kind, or what may stand in a type. -/
def FitsList (t : Token) : Prop :=
  t.text ∉ ["<", ">", ">>", ">>>"] → Bracket.IsNone t →
    t.isTrivia = true ∨ t.isLiteral = true ∨ t.kind = .identifier ∨ t.text ∈ typeArgumentPunctuation

/-- Tokens that read like a list of type arguments, from its first angle bracket to its last one. -/
structure ArgumentList (block : List Token) : Prop where
  nonempty : block ≠ []
  /-- Before the last token the list is not closed. -/
  isOpen : ∀ front back, block = front ++ back → front ≠ [] → back ≠ [] → 0 < angleDepth front
  closed : angleDepth block = 0
  nested : Bracket.Nested block
  fits : ∀ t ∈ block, FitsList t
  /-- No statement ends in the list: each semicolon stands in brackets. -/
  goesOn : ∀ front t back, block = front ++ t :: back → t.text = ";" → ¬Bracket.Nested front

/-- A token that the search reads behind the tokens `front`, begun at `depth` angle brackets with the brackets `opened` open: the list is
not closed before it, and it does not end a statement. -/
def Continues (depth : Int) (opened : List Bracket) (front : List Token) (t : Token) : Prop :=
  0 < depth + angleDepth front ∧ FitsList t ∧ (t.text = ";" → Bracket.behind opened front ≠ some [])

/-- The tokens read like a list from there on, and their last one closes it. -/
structure EndsList (depth : Int) (opened : List Bracket) (block : List Token) : Prop where
  nonempty : block ≠ []
  continues : ∀ front t back, block = front ++ t :: back → Continues depth opened front t
  closed : depth + angleDepth block = 0
  nested : Bracket.behind opened block = some []

section Search

variable {depth : Int} {opened opened' : List Bracket} {t u : Token} {ts block front rest : List Token}

@[simp] theorem angleDepth_nil : angleDepth [] = 0 := rfl

theorem angleDepth_cons (t : Token) (ts : List Token) : angleDepth (t :: ts) = angleDepth [t] + angleDepth ts := by
  simp only [angleDepth, List.countP_cons, List.countP_nil]
  push_cast
  ring

/-- The depth of a token is what the search counts at it. -/
theorem angleDepth_singleton (t : Token) : angleDepth [t] = (angleStep t.text).getD 0 := by
  unfold angleStep
  split
  · simp [angleDepth, *]
  split
  · simp [angleDepth, *]
  split
  · simp [angleDepth, *]
  split <;> simp [angleDepth, *]

theorem fitsList_of_angleStep {step : Int} (hangle : angleStep t.text = some step) : FitsList t := by
  intro hother
  rw [angleStep_eq_none_iff.mpr hother] at hangle
  nomatch hangle

theorem fitsList_iff (hangle : angleStep t.text = none) :
    FitsList t ↔ (Bracket.IsNone t → mayStandInTypeArguments t = true) := by
  simp only [FitsList, angleStep_eq_none_iff.mp hangle, mayStandInTypeArguments, Bool.or_eq_true, beq_iff_eq, List.contains_iff_mem,
    or_assoc, not_false_eq_true, true_implies]

/-- What holds at each place of some tokens holds at the first one, and at each place behind it. -/
theorem forall_place_cons_iff {P : List Token → Token → Prop} :
    (∀ front u back, t :: block = front ++ u :: back → P front u) ↔
      P [] t ∧ ∀ front u back, block = front ++ u :: back → P (t :: front) u := by
  constructor
  · exact fun h => ⟨h [] t block rfl, fun front u back heq => h (t :: front) u back (congrArg (t :: ·) heq)⟩
  · rintro ⟨hfirst, hlater⟩ front u back heq
    rcases List.cons_eq_append_iff.mp heq with ⟨rfl, hblock⟩ | ⟨front, rfl, hblock⟩
    · obtain ⟨rfl, -⟩ := List.cons.inj hblock
      exact hfirst
    · exact hlater front u back hblock

/-- Tokens that are not empty begin with the first token. -/
theorem exists_block_cons_iff {P : List Token → Prop} (hnil : ¬P []) :
    (∃ block, t :: ts = block ++ rest ∧ P block) ↔ ∃ block, ts = block ++ rest ∧ P (t :: block) := by
  constructor
  · rintro ⟨block, heq, h⟩
    rcases List.cons_eq_append_iff.mp heq with ⟨rfl, -⟩ | ⟨block, rfl, hts⟩
    · exact absurd h hnil
    · exact ⟨block, hts, h⟩
  · rintro ⟨block, rfl, h⟩
    exact ⟨t :: block, rfl, h⟩

theorem continues_nil_iff : Continues depth opened [] t ↔ 0 < depth ∧ FitsList t ∧ (t.text = ";" → opened ≠ []) := by
  simp [Continues, Bracket.behind]

theorem continues_cons_iff (hafter : Bracket.after opened t = some opened') :
    Continues depth opened (t :: front) u ↔ Continues (depth + angleDepth [t]) opened' front u := by
  rw [Continues, Continues, angleDepth_cons, Int.add_assoc, Bracket.behind_cons, hafter, Option.bind_some]

/-- The end of a list, token by token. -/
theorem endsList_cons_iff :
    EndsList depth opened (t :: block) ↔
      0 < depth ∧ FitsList t ∧ (t.text = ";" → opened ≠ []) ∧ ∃ opened', Bracket.after opened t = some opened' ∧
        (EndsList (depth + angleDepth [t]) opened' block ∨ (depth + angleDepth [t] = 0 ∧ opened' = [] ∧ block = [])) := by
  constructor
  · rintro ⟨-, hcontinues, hclosed, hnested⟩
    obtain ⟨hfirst, hlater⟩ := forall_place_cons_iff.mp hcontinues
    obtain ⟨hdepth, hfits, hgoesOn⟩ := continues_nil_iff.mp hfirst
    obtain ⟨opened', hafter, hbehind⟩ := Option.bind_eq_some_iff.mp hnested
    rw [angleDepth_cons, ← Int.add_assoc] at hclosed
    refine ⟨hdepth, hfits, hgoesOn, opened', hafter, ?_⟩
    by_cases hblock : block = []
    · subst hblock
      exact .inr ⟨by simpa using hclosed, Option.some.inj hbehind, rfl⟩
    · exact .inl ⟨hblock, fun front u back heq => (continues_cons_iff hafter).mp (hlater front u back heq), hclosed, hbehind⟩
  · rintro ⟨hdepth, hfits, hgoesOn, opened', hafter, h⟩
    have hfirst : Continues depth opened [] t := continues_nil_iff.mpr ⟨hdepth, hfits, hgoesOn⟩
    have hnested (h : Bracket.behind opened' block = some []) : Bracket.behind opened (t :: block) = some [] := by
      rw [Bracket.behind_cons, hafter]
      exact h
    have hclosed (h : depth + angleDepth [t] + angleDepth block = 0) : depth + angleDepth (t :: block) = 0 := by
      rw [angleDepth_cons, ← Int.add_assoc]
      exact h
    refine ⟨List.cons_ne_nil t block, forall_place_cons_iff.mpr ⟨hfirst, fun front u back heq => ?_⟩, ?_, ?_⟩
    · rw [continues_cons_iff hafter]
      rcases h with h | ⟨-, -, rfl⟩
      · exact h.continues front u back heq
      · simp at heq
    · rcases h with h | ⟨hzero, -, rfl⟩
      · exact hclosed h.closed
      · exact hzero
    · rcases h with h | ⟨-, rfl, rfl⟩
      · exact hnested h.nested
      · exact hnested rfl

/-- The search finds the end of a list that is not closed yet, where there is one. -/
theorem closeAngle_eq_some_iff (hdepth : 0 < depth) :
    (closeAngle depth opened ts).map (·.tokens) = some rest ↔ ∃ block, ts = block ++ rest ∧ EndsList depth opened block := by
  induction ts generalizing depth opened with
  | nil =>
    constructor
    · nofun
    · rintro ⟨block, heq, h⟩
      exact absurd (List.append_eq_nil_iff.mp heq.symm).1 h.nonempty
  | cons t ts ih =>
    rw [exists_block_cons_iff fun h => h.nonempty rfl]
    simp only [endsList_cons_iff, angleDepth_singleton]
    cases hangle : angleStep t.text with
    | some step =>
      have hnone := isNone_of_angleStep hangle
      have hfits := fitsList_of_angleStep hangle
      have hsemicolon : t.text ≠ ";" := by
        intro ht
        rw [ht] at hangle
        nomatch hangle
      rw [closeAngle_cons_angle_iff hangle]
      simp only [Bracket.after_of_isNone hnone, Option.some.injEq, exists_eq_left', hdepth, hfits, hsemicolon, false_implies, true_and,
        Option.getD_some]
      constructor
      · rintro (⟨hstep, h⟩ | ⟨hzero, hopened, rfl⟩)
        · obtain ⟨block, heq, h⟩ := (ih hstep).mp h
          exact ⟨block, heq, .inl h⟩
        · exact ⟨[], rfl, .inr ⟨hzero, hopened, rfl⟩⟩
      · rintro ⟨block, rfl, h | ⟨hzero, hopened, rfl⟩⟩
        · obtain ⟨u, us, rfl⟩ := List.exists_cons_of_ne_nil h.nonempty
          have hstep := (endsList_cons_iff.mp h).1
          exact .inl ⟨hstep, (ih hstep).mpr ⟨u :: us, rfl, h⟩⟩
        · exact .inr ⟨hzero, hopened, rfl⟩
    | none =>
      -- the depth stays the same, so the list is not closed here
      rw [closeAngle_cons_other_iff hangle]
      simp only [Option.getD_none, Int.add_zero, fitsList_iff hangle, ih hdepth]
      constructor
      · rintro ⟨hfits, hgoesOn, opened', hafter, block, heq, h⟩
        exact ⟨block, heq, hdepth, hfits, hgoesOn, opened', hafter, .inl h⟩
      · rintro ⟨block, heq, -, hfits, hgoesOn, opened', hafter, h | ⟨hzero, -⟩⟩
        · exact ⟨hfits, hgoesOn, opened', hafter, block, heq, h⟩
        · omega

/-- Behind its first angle bracket a list is not closed yet. -/
theorem argumentList_cons_iff (ht : t.text = "<") : ArgumentList (t :: block) ↔ EndsList 1 [] block := by
  have hangle : angleStep t.text = some 1 := by rw [ht]; rfl
  have hnone := isNone_of_angleStep hangle
  have hdepth (ts : List Token) : angleDepth (t :: ts) = 1 + angleDepth ts := by
    rw [angleDepth_cons, angleDepth_singleton, hangle, Option.getD_some]
  have hnested (ts : List Token) : Bracket.Nested (t :: ts) ↔ Bracket.behind [] ts = some [] := by
    rw [Bracket.nested_iff_balanced, balanced_iff, Bracket.behind_cons_of_isNone hnone]
  constructor
  · intro h
    have hclosed : 1 + angleDepth block = 0 := (hdepth block).symm.trans h.closed
    refine ⟨?_, fun front u back heq => ⟨?_, ?_, ?_⟩, hclosed, (hnested block).mp h.nested⟩
    · rintro rfl
      exact absurd hclosed (by decide)
    · rw [← hdepth]
      exact h.isOpen (t :: front) (u :: back) (congrArg (t :: ·) heq) (List.cons_ne_nil _ _) (List.cons_ne_nil _ _)
    · exact h.fits u (by simp [heq])
    · intro hu hfront
      exact h.goesOn (t :: front) u back (congrArg (t :: ·) heq) hu ((hnested front).mpr hfront)
  · intro h
    refine ⟨List.cons_ne_nil t block, fun front back heq hfront hback => ?_, (hdepth block).trans h.closed, (hnested block).mpr h.nested,
      List.forall_mem_cons.mpr ⟨fitsList_of_angleStep hangle, fun u hu => ?_⟩,
      forall_place_cons_iff.mpr ⟨?_, fun front u back heq hu => ?_⟩⟩
    · obtain ⟨t', front, rfl⟩ := List.exists_cons_of_ne_nil hfront
      obtain ⟨u, back, rfl⟩ := List.exists_cons_of_ne_nil hback
      obtain ⟨rfl, hblock⟩ := List.cons.inj heq
      rw [hdepth]
      exact (h.continues front u back hblock).1
    · obtain ⟨front, back, heq⟩ := List.append_of_mem hu
      exact (h.continues front u back heq).2.1
    · rw [ht]
      nofun
    · rw [hnested]
      exact (h.continues front u back heq).2.2 hu

/-- From a first angle bracket on the search finds the end of a list, where there is one. -/
theorem matchAngle_eq_some_iff (ht : t.text = "<") :
    (matchAngle (t :: ts)).map (·.tokens) = some rest ↔ ∃ block, t :: ts = block ++ rest ∧ ArgumentList block := by
  have hangle : angleStep t.text = some 1 := by rw [ht]; rfl
  rw [matchAngle, closeAngle_cons_angle_iff hangle, exists_block_cons_iff fun h => h.nonempty rfl]
  simp only [argumentList_cons_iff ht, ← closeAngle_eq_some_iff Int.one_pos]
  constructor
  · rintro (⟨-, h⟩ | ⟨hone, -⟩)
    · exact h
    · nomatch hone
  · exact fun h => .inl ⟨Int.one_pos, h⟩

end Search

/-! ## What goes with a list -/

/-- A token in brackets: it opens a bracket whose partner is among the tokens behind it, or closes one whose partner is among those before
it, or stands between a bracket and its partner. -/
inductive Paired (front : List Token) (t : Token) (back : List Token) : Prop where
  | opens {b : Bracket} {inner rest : List Token} {u : Token} (ht : t.text = b.opener) (hback : back = inner ++ u :: rest)
      (hu : u.text = b.closer) (hinner : Bracket.Nested inner) : Paired front t back
  | closes {b : Bracket} {before inner : List Token} {u : Token} (ht : t.text = b.closer) (hfront : front = before ++ u :: inner)
      (hu : u.text = b.opener) (hinner : Bracket.Nested inner) : Paired front t back
  | within {b : Bracket} {before inner inner' rest : List Token} {u v : Token} (hfront : front = before ++ u :: inner)
      (hback : back = inner' ++ v :: rest) (hu : u.text = b.opener) (hv : v.text = b.closer)
      (hinner : Bracket.Nested (inner ++ t :: inner')) : Paired front t back

/-- Tokens with no bracket that has its partner outside of them, and with no semicolon outside brackets. -/
def SelfContained (block : List Token) : Prop :=
  ∀ front t back, block = front ++ t :: back → Paired front t back ∨ (Bracket.IsNone t ∧ t.text ≠ ";")

variable {t : Token} {ts front back block rest : List Token}

theorem Paired.behind (h : Paired front t back) (ts : List Token) : Paired (ts ++ front) t back := by
  cases h with
  | opens ht hback hu hinner => exact .opens ht hback hu hinner
  | closes ht hfront hu hinner => exact .closes ht (by rw [hfront, List.append_assoc]) hu hinner
  | within hfront hback hu hv hinner => exact .within (by rw [hfront, List.append_assoc]) hback hu hv hinner

theorem Paired.before (h : Paired front t back) (ts : List Token) : Paired front t (back ++ ts) := by
  cases h with
  | opens ht hback hu hinner => exact .opens ht (by rw [hback, List.append_assoc, List.cons_append]) hu hinner
  | closes ht hfront hu hinner => exact .closes ht hfront hu hinner
  | within hfront hback hu hv hinner => exact .within hfront (by rw [hback, List.append_assoc, List.cons_append]) hu hv hinner

/-- Among tokens whose brackets are nested each one is in brackets, or has nested brackets before it. -/
theorem Bracket.Nested.place (h : Nested ts) (heq : ts = front ++ t :: back) : Paired front t back ∨ (IsNone t ∧ Nested front) := by
  induction h generalizing front back with
  | nil => simp at heq
  | @other u ts hu _ ih =>
    rcases List.cons_eq_append_iff.mp heq with ⟨rfl, hfirst⟩ | ⟨front, rfl, hlater⟩
    · obtain ⟨rfl, -⟩ := List.cons.inj hfirst
      exact .inr ⟨hu, .nil⟩
    · rcases ih hlater with hpaired | ⟨hnone, hnested⟩
      · exact .inl (hpaired.behind [u])
      · exact .inr ⟨hnone, .other hu hnested⟩
  | @group b o c inner ts ho hc hinner _ ihinner ih =>
    rw [List.cons_append] at heq
    rcases List.cons_eq_append_iff.mp heq with ⟨rfl, hfirst⟩ | ⟨front, rfl, hlater⟩
    · obtain ⟨rfl, rfl⟩ := List.cons.inj hfirst
      exact .inl (.opens ho rfl hc hinner)
    -- at the end of the group or behind it, or else at its end or in it
    rcases List.append_eq_append_iff.mp hlater with ⟨between, rfl, hrest⟩ | ⟨between, rfl, hrest⟩
    · rcases List.cons_eq_append_iff.mp hrest with ⟨rfl, hlast⟩ | ⟨between, rfl, hbehind⟩
      · obtain ⟨rfl, -⟩ := List.cons.inj hlast
        rw [List.append_nil]
        exact .inl (.closes hc (List.nil_append _).symm ho hinner)
      · rcases ih hbehind with hpaired | ⟨hnone, hnested⟩
        · have hgroup := hpaired.behind (o :: inner ++ [c])
          rw [List.append_assoc] at hgroup
          exact .inl hgroup
        · exact .inr ⟨hnone, .group b ho hc hinner hnested⟩
    · rcases List.cons_eq_append_iff.mp hrest with ⟨rfl, hlast⟩ | ⟨between, rfl, rfl⟩
      · obtain ⟨rfl, -⟩ := List.cons.inj hlast
        rw [List.append_nil] at hinner
        exact .inl (.closes hc (List.nil_append _).symm ho hinner)
      · rcases ihinner rfl with hpaired | ⟨hnone, hnested⟩
        · exact .inl ((hpaired.behind [o]).before (c :: ts))
        · exact .inl (.within (List.nil_append _).symm rfl ho hc hinner)

/-- A list of type arguments takes no bracket without its partner with it, and no end of a statement. -/
theorem ArgumentList.selfContained (h : ArgumentList block) : SelfContained block := by
  intro front t back heq
  rcases h.nested.place heq with hpaired | ⟨hnone, hnested⟩
  · exact .inl hpaired
  · exact .inr ⟨hnone, fun ht => h.goesOn front t back heq ht hnested⟩

/-- A list in angle brackets is taken out of the source, by the walk or with the type syntax that it stands in, and `rest` is left. -/
inductive TakenOut (t : Token) (ts : List Token) : (rest : List Token) → Prop where
  | erased {e : Eraser} {e' : Eraser.Next (t :: ts)} (hkind : t.kind = .punctuation) (hstep : Eraser.step e t ts = .ok e')
      (hkept : e'.1.kept = e.kept) : TakenOut t ts e'.1.rest
  | skipped {r : Tail (t :: ts)} (hskip : skipAngle (t :: ts) = .ok r) : TakenOut t ts r.tokens

theorem matchAngle_of_takenOut (ht : t.text = "<") (h : TakenOut t ts rest) : (matchAngle (t :: ts)).map (·.tokens) = some rest := by
  cases h with
  | @erased e e' hkind hstep hkept =>
    have hlexeme : t.lexeme = mark "<" := by rw [Token.lexeme, hkind, ht]
    have hkeep : (Eraser.keep e t ts).1.kept ≠ e.kept := List.cons_ne_self t e.kept
    rw [step_of_angle hlexeme] at hstep
    cases hr : matchAngle (t :: ts) with
    | none =>
      rw [hr] at hstep
      obtain rfl := Except.ok.inj hstep
      exact absurd hkept hkeep
    | some r =>
      rw [hr] at hstep
      simp only at hstep
      split at hstep
      · obtain rfl := Except.ok.inj hstep
        rfl
      · obtain rfl := Except.ok.inj hstep
        exact absurd hkept hkeep
  | @skipped r hskip =>
    unfold skipAngle at hskip
    split at hskip
    · rename_i r' hr
      obtain rfl := Except.ok.inj hskip
      rw [hr]
      rfl
    · cases hskip

/-- From an angle bracket on the search finds the end of a list exactly where the tokens up to there read like one, and else nothing. That
is the first place where as many angle brackets are closed as opened. What is taken out with a list is self-contained. -/
theorem argumentList_found_iff (ht : t.text = "<") :
    (∀ block rest, t :: ts = block ++ rest → ((matchAngle (t :: ts)).map (·.tokens) = some rest ↔ ArgumentList block)) ∧
    (matchAngle (t :: ts) = none ↔ ∀ block, block <+: t :: ts → ¬ArgumentList block) ∧
    (∀ block front, block <+: t :: ts → ArgumentList block → front <+: t :: ts → front ≠ [] → angleDepth front ≤ 0 → block <+: front) ∧
    ∀ rest, TakenOut t ts rest → ∃ block, t :: ts = block ++ rest ∧ ArgumentList block ∧ SelfContained block := by
  refine ⟨fun block rest heq => ?_, ?_, ?_, fun rest h => ?_⟩
  · rw [matchAngle_eq_some_iff ht]
    constructor
    · rintro ⟨block', heq', h⟩
      rwa [List.append_cancel_right (heq.symm.trans heq')]
    · exact fun h => ⟨block, heq, h⟩
  · rw [← Option.map_eq_none_iff (f := (·.tokens)), Option.eq_none_iff_forall_ne_some]
    simp only [ne_eq, matchAngle_eq_some_iff ht]
    constructor
    · rintro hnone block ⟨rest, heq⟩ hlist
      exact hnone rest ⟨block, heq.symm, hlist⟩
    · rintro hno rest ⟨block, heq, hlist⟩
      exact hno block ⟨rest, heq.symm⟩ hlist
  · intro block front hblock hlist hfront hne hdepth
    rcases List.prefix_or_prefix_of_prefix hblock hfront with h | ⟨back, heq⟩
    · exact h
    · by_cases hback : back = []
      · rw [← heq, hback, List.append_nil]
      · exact absurd (hlist.isOpen front back heq.symm hne hback) (by omega)
  · obtain ⟨block, heq, hlist⟩ := (matchAngle_eq_some_iff ht).mp (matchAngle_of_takenOut ht h)
    exact ⟨block, heq, hlist, hlist.selfContained⟩

/-- Two angle brackets in one token close the list, which holds a semicolon in brackets. In the comparison an angle bracket that stands in
brackets closes the one before them, so it is no list. -/
theorem argumentList_found_iff_object :
    (∃ t ts rest, tokenize "<A<\x7ba:[B];\x7d>>(x)".toList 0 .first = .ok (t :: ts) ∧ t.text = "<" ∧
      rest.map (·.text) = ["(", "x", ")"] ∧ TakenOut t ts rest ∧
      ∃ block, t :: ts = block ++ rest ∧ ArgumentList block ∧ SelfContained block) ∧
    ∃ t ts, tokenize "<(b>c)".toList 0 .first = .ok (t :: ts) ∧ t.text = "<" ∧ ∀ block, block <+: t :: ts → ¬ArgumentList block := by
  constructor
  · let t : Token := ⟨.punctuation, "<", 0, ⟨1, 1⟩⟩
    let ts : List Token := [⟨.identifier, "A", 1, ⟨1, 2⟩⟩, ⟨.punctuation, "<", 2, ⟨1, 3⟩⟩, ⟨.punctuation, "\x7b", 3, ⟨1, 4⟩⟩,
      ⟨.identifier, "a", 4, ⟨1, 5⟩⟩, ⟨.punctuation, ":", 5, ⟨1, 6⟩⟩, ⟨.punctuation, "[", 6, ⟨1, 7⟩⟩, ⟨.identifier, "B", 7, ⟨1, 8⟩⟩,
      ⟨.punctuation, "]", 8, ⟨1, 9⟩⟩, ⟨.punctuation, ";", 9, ⟨1, 10⟩⟩, ⟨.punctuation, "\x7d", 10, ⟨1, 11⟩⟩,
      ⟨.punctuation, ">>", 11, ⟨1, 12⟩⟩, ⟨.punctuation, "(", 13, ⟨1, 14⟩⟩, ⟨.identifier, "x", 14, ⟨1, 15⟩⟩,
      ⟨.punctuation, ")", 15, ⟨1, 16⟩⟩]
    have hlex : tokenize "<A<\x7ba:[B];\x7d>>(x)".toList 0 .first = .ok (t :: ts) := by cbv
    have hfound : (matchAngle (t :: ts)).map (·.tokens) = some (ts.drop 11) := by cbv
    obtain ⟨r, hr, hrest⟩ := Option.map_eq_some_iff.mp hfound
    have htaken : TakenOut t ts r.tokens := .skipped (by rw [skipAngle, hr])
    exact ⟨t, ts, r.tokens, hlex, rfl, by rw [hrest]; rfl, htaken, (argumentList_found_iff rfl).2.2.2 r.tokens htaken⟩
  · let t : Token := ⟨.punctuation, "<", 0, ⟨1, 1⟩⟩
    let ts : List Token := [⟨.punctuation, "(", 1, ⟨1, 2⟩⟩, ⟨.identifier, "b", 2, ⟨1, 3⟩⟩, ⟨.punctuation, ">", 3, ⟨1, 4⟩⟩,
      ⟨.identifier, "c", 4, ⟨1, 5⟩⟩, ⟨.punctuation, ")", 5, ⟨1, 6⟩⟩]
    have hlex : tokenize "<(b>c)".toList 0 .first = .ok (t :: ts) := by cbv
    have hnone : matchAngle (t :: ts) = none := by cbv
    exact ⟨t, ts, hlex, rfl, (argumentList_found_iff rfl).2.1.mp hnone⟩

end ScriptLoader.Syntax
