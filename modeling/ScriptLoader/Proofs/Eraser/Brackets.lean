import ScriptLoader.Proofs.Eraser.Moves
import ScriptLoader.Proofs.Eraser.Verbatim

/-!
# Brackets that are not nested

The walk has a frame for every bracket that it passes on its own, so that it refuses a source where those are not nested. Some tokens it
passes in one step, a type or a declaration that is skipped, a clause that is copied (`Eraser.blocks`). Of these only lists in angle
brackets are looked at for all kinds of brackets. So a source whose brackets are not nested is refused, unless that is so in one of the
other blocks (`erase_unbalanced`); there it may be accepted (`erase_unbalanced_type`).
-/

namespace ScriptLoader.Syntax

/-! ## Open brackets -/

namespace Bracket

/-- The brackets that are open behind a token, innermost first; none where it closes another one than the innermost. -/
def after (opened : List Bracket) (t : Token) : Option (List Bracket) :=
  match opened? t.text, closed? t.text, opened with
  | some b, _, _ => some (b :: opened)
  | none, some b, b' :: outer => if b' = b then some outer else none
  | none, some _, [] => none
  | none, none, _ => some opened

/-- The brackets that are open behind some tokens. -/
def behind (opened : List Bracket) (ts : List Token) : Option (List Bracket) := ts.foldlM after opened

/-- A token that is no bracket. -/
def IsNone (t : Token) : Prop := opened? t.text = none ∧ closed? t.text = none

variable {opened opened' : List Bracket} {t : Token} {ts us : List Token}

theorem behind_cons (opened : List Bracket) (t : Token) (ts : List Token) :
    behind opened (t :: ts) = (after opened t).bind (behind · ts) := rfl

theorem behind_append (opened : List Bracket) (ts us : List Token) :
    behind opened (ts ++ us) = (behind opened ts).bind (behind · us) := List.foldlM_append

theorem after_of_isNone (ht : IsNone t) (opened : List Bracket) : after opened t = some opened := by
  unfold after
  rw [ht.1, ht.2]

theorem after_of_opener {b : Bracket} (ht : t.text = b.opener) (opened : List Bracket) : after opened t = some (b :: opened) := by
  unfold after
  rw [ht, opened?_opener]

theorem after_of_closer {b : Bracket} (ht : t.text = b.closer) : after (b :: opened) t = some opened := by
  unfold after
  rw [ht]
  cases b <;> rfl

theorem behind_cons_of_isNone (ht : IsNone t) (opened : List Bracket) (ts : List Token) : behind opened (t :: ts) = behind opened ts := by
  rw [behind_cons, after_of_isNone ht, Option.bind_some]

theorem isNone_of_beginsOther (h : beginsOther t.text.toList = true) : IsNone t := by
  have hopen : opened? t.text = none := by
    rw [opened?, if_neg (ne_of_beginsOther h (by decide)), if_neg (ne_of_beginsOther h (by decide)),
      if_neg (ne_of_beginsOther h (by decide))]
  have hclose : closed? t.text = none := by
    rw [closed?, if_neg (ne_of_beginsOther h (by decide)), if_neg (ne_of_beginsOther h (by decide)),
      if_neg (ne_of_beginsOther h (by decide))]
  exact ⟨hopen, hclose⟩

/-- The text of the bracket that is opened. -/
theorem eq_opener {b : Bracket} {s : String} (h : opened? s = some b) : s = b.opener := by
  unfold opened? at h
  split at h
  · rename_i hs
    exact hs.trans (Option.some.inj h ▸ rfl)
  split at h
  · rename_i hs
    exact hs.trans (Option.some.inj h ▸ rfl)
  split at h
  · rename_i hs
    exact hs.trans (Option.some.inj h ▸ rfl)
  · nomatch h

theorem eq_closer {b : Bracket} {s : String} (h : closed? s = some b) : s = b.closer := by
  unfold closed? at h
  split at h
  · rename_i hs
    exact hs.trans (Option.some.inj h ▸ rfl)
  split at h
  · rename_i hs
    exact hs.trans (Option.some.inj h ▸ rfl)
  split at h
  · rename_i hs
    exact hs.trans (Option.some.inj h ▸ rfl)
  · nomatch h

/-- A token opens a bracket, closes the innermost one, or is none. -/
theorem after_cases (h : after opened t = some opened') :
    (∃ b, t.text = b.opener ∧ opened' = b :: opened) ∨ (∃ b, t.text = b.closer ∧ opened = b :: opened') ∨
      (IsNone t ∧ opened' = opened) := by
  unfold after at h
  cases hopen : opened? t.text with
  | some b =>
    rw [hopen] at h
    exact .inl ⟨b, eq_opener hopen, (Option.some.inj h).symm⟩
  | none =>
    cases hclose : closed? t.text with
    | none =>
      rw [hopen, hclose] at h
      exact .inr (.inr ⟨⟨hopen, hclose⟩, (Option.some.inj h).symm⟩)
    | some b =>
      rw [hopen, hclose] at h
      cases opened with
      | nil => nomatch h
      | cons b' outer =>
        simp only at h
        split at h
        · rename_i hb
          obtain rfl := Option.some.inj h
          exact .inr (.inl ⟨b, eq_closer hclose, by rw [hb]⟩)
        · nomatch h

/-- What is open further out makes no difference to tokens that close none of it. -/
theorem behind_append_outer (outer : List Bracket) (h : behind opened ts = some opened') :
    behind (opened ++ outer) ts = some (opened' ++ outer) := by
  induction ts generalizing opened with
  | nil =>
    obtain rfl := Option.some.inj h
    rfl
  | cons t ts ih =>
    rw [behind_cons] at h ⊢
    obtain ⟨opened₁, hafter, hbehind⟩ := Option.bind_eq_some_iff.mp h
    have hstep : after (opened ++ outer) t = some (opened₁ ++ outer) := by
      rcases after_cases hafter with ⟨b, ht, rfl⟩ | ⟨b, ht, rfl⟩ | ⟨hnone, rfl⟩
      · exact after_of_opener ht _
      · exact after_of_closer ht
      · exact after_of_isNone hnone _
    rw [hstep, Option.bind_some]
    exact ih hbehind

end Bracket

/-- The brackets of the levels around a place. -/
def Nesting.brackets (n : Nesting) : List (Option Bracket) := n.inner.bracket :: n.outer.map (·.bracket)

/-- The levels behind one more token are those of the brackets that are open. -/
theorem Nesting.brackets_enter {n : Nesting} {opened : List Bracket} (h : n.brackets = opened.map some ++ [none]) (t : Token) :
    (n.enter t).map brackets = (Bracket.after opened t).map fun opened => opened.map some ++ [none] := by
  unfold enter Bracket.after
  cases Bracket.opened? t.text with
  | some b => exact congrArg (fun l => some (some b :: l)) h
  | none =>
    cases Bracket.closed? t.text with
    | none => exact congrArg some h
    | some b =>
      obtain ⟨⟨bracket, direct⟩, outer⟩ := n
      cases opened with
      | nil =>
        obtain ⟨rfl, houter⟩ := List.cons.inj h
        obtain rfl := List.map_eq_nil_iff.mp houter
        rfl
      | cons b' inner =>
        obtain ⟨rfl, houter⟩ := List.cons.inj h
        cases outer with
        | nil => simp at houter
        | cons l outer =>
          by_cases hb : b' = b
          · simp only [hb, if_true]
            exact congrArg some houter
          · simp [hb]

theorem brackets_nesting (ts : List Token) :
    (nesting ts.reverse).map Nesting.brackets = (Bracket.behind [] ts).map fun opened => opened.map some ++ [none] := by
  induction ts using List.reverseRecOn with
  | nil => rfl
  | append_singleton ts t ih =>
    rw [List.reverse_append, List.reverse_singleton, List.singleton_append, nesting, Bracket.behind_append]
    cases hbehind : Bracket.behind [] ts with
    | none =>
      rw [hbehind, Option.map_none, Option.map_eq_none_iff] at ih
      rw [ih]
      rfl
    | some opened =>
      rw [hbehind, Option.map_some, Option.map_eq_some_iff] at ih
      obtain ⟨n, hn, hbrackets⟩ := ih
      rw [hn, Option.bind_some, Option.bind_some, n.brackets_enter hbrackets, Bracket.behind_cons]
      cases Bracket.after opened t <;> rfl

/-- Brackets are nested if none is open behind them all. -/
theorem balanced_iff (ts : List Token) : Balanced ts ↔ Bracket.behind [] ts = some [] := by
  have hlevels := brackets_nesting ts
  constructor
  · rintro ⟨n, hn, hnone⟩
    rw [hn, Option.map_some] at hlevels
    obtain ⟨opened, hopened, hbrackets⟩ := Option.map_eq_some_iff.mp hlevels.symm
    cases opened with
    | nil => exact hopened
    | cons b opened =>
      rw [Nesting.brackets, hnone] at hbrackets
      nomatch (List.cons.inj hbrackets).1
  · intro hbehind
    rw [hbehind] at hlevels
    obtain ⟨n, hn, hbrackets⟩ := Option.map_eq_some_iff.mp hlevels
    exact ⟨n, hn, (List.cons.inj hbrackets).1⟩

instance (ts : List Token) : Decidable (Balanced ts) := decidable_of_iff _ (balanced_iff ts).symm

theorem Balanced.behind {ts : List Token} (h : Balanced ts) (opened : List Bracket) : Bracket.behind opened ts = some opened :=
  Bracket.behind_append_outer opened ((balanced_iff ts).mp h)

/-! ## Lists in angle brackets -/

theorem angleStep_eq_none_iff {s : String} : angleStep s = none ↔ s ∉ ["<", ">", ">>", ">>>"] := by
  unfold angleStep
  split
  · simp [*]
  split
  · simp [*]
  split
  · simp [*]
  split <;> simp [*]

theorem isNone_of_angleStep {t : Token} {n : Int} (h : angleStep t.text = some n) : Bracket.IsNone t := by
  have hangle : t.text ∈ ["<", ">", ">>", ">>>"] := by
    by_contra hother
    rw [angleStep_eq_none_iff.mpr hother] at h
    nomatch h
  have hnone : ∀ s ∈ ["<", ">", ">>", ">>>"], Bracket.opened? s = none ∧ Bracket.closed? s = none := by decide
  exact hnone _ hangle

section CloseAngle

variable {depth : Int} {opened : List Bracket} {t : Token} {ts rest : List Token}

/-- At an angle bracket the search for the end of a list goes on, or it is over where this closes the last one. -/
theorem closeAngle_cons_angle_iff {step : Int} (hangle : angleStep t.text = some step) :
    (closeAngle depth opened (t :: ts)).map (·.tokens) = some rest ↔
      (0 < depth + step ∧ (closeAngle (depth + step) opened ts).map (·.tokens) = some rest) ∨
        (depth + step = 0 ∧ opened = [] ∧ ts = rest) := by
  rw [closeAngle]
  simp only [hangle]
  by_cases hstep : 0 < depth + step
  · rw [if_neg (by omega), Option.map_map]
    constructor
    · exact fun h => .inl ⟨hstep, h⟩
    · rintro (⟨-, h⟩ | ⟨hzero, -⟩)
      · exact h
      · omega
  · rw [if_pos (by omega)]
    by_cases hclosed : depth + step = 0 ∧ opened = []
    · obtain ⟨hzero, rfl⟩ := hclosed
      rw [if_pos (by rw [hzero]; rfl)]
      constructor
      · exact fun h => .inr ⟨hzero, rfl, Option.some.inj h⟩
      · rintro (⟨hpos, -⟩ | ⟨-, -, rfl⟩)
        · exact absurd hpos hstep
        · rfl
    · rw [if_neg (by simpa using hclosed)]
      constructor
      · exact fun h => absurd h.symm (Option.some_ne_none rest)
      · rintro (⟨hpos, -⟩ | ⟨hzero, hopened, -⟩)
        · exact absurd hpos hstep
        · exact absurd ⟨hzero, hopened⟩ hclosed

/-- At any other token it goes on if the token is a bracket that is nested, or may stand in a list and is no semicolon outside the
brackets. -/
theorem closeAngle_cons_other_iff (hangle : angleStep t.text = none) :
    (closeAngle depth opened (t :: ts)).map (·.tokens) = some rest ↔
      (Bracket.IsNone t → mayStandInTypeArguments t = true) ∧ (t.text = ";" → opened ≠ []) ∧
        ∃ opened', Bracket.after opened t = some opened' ∧ (closeAngle depth opened' ts).map (·.tokens) = some rest := by
  have hgo (opened' : List Bracket) :
      ((closeAngle depth opened' ts).map (·.widen (List.suffix_cons t ts))).map (·.tokens) =
        (closeAngle depth opened' ts).map (·.tokens) := by
    rw [Option.map_map]
    rfl
  rw [closeAngle]
  simp only [hangle]
  by_cases hnone : Bracket.IsNone t
  · simp only [hnone.1, hnone.2, Bracket.after_of_isNone hnone, Option.some.injEq, exists_eq_left', hnone, forall_const]
    by_cases hsemicolon : t.text = ";" ∧ opened = []
    · rw [if_pos (by simpa using hsemicolon)]
      simp [hsemicolon]
    · rw [if_neg (by simpa using hsemicolon)]
      by_cases hfits : mayStandInTypeArguments t = true
      · rw [if_pos hfits, hgo]
        exact ⟨fun h => ⟨hfits, not_and.mp hsemicolon, h⟩, fun h => h.2.2⟩
      · rw [if_neg hfits]
        exact ⟨fun h => absurd h.symm (Option.some_ne_none rest), fun h => absurd h.1 hfits⟩
  · -- a bracket, so no semicolon
    have hsemicolon : t.text ≠ ";" := by
      intro ht
      refine hnone ?_
      rw [Bracket.IsNone, ht]
      decide
    simp only [hnone, hsemicolon, false_implies, true_and]
    cases hopen : Bracket.opened? t.text with
    | some b => simp [hgo, Bracket.after, hopen]
    | none =>
      cases hclose : Bracket.closed? t.text with
      | none => exact absurd ⟨hopen, hclose⟩ hnone
      | some b =>
        cases opened with
        | nil => simp [Bracket.after, hopen, hclose]
        | cons b' outer => by_cases hb : b' = b <;> simp [hgo, Bracket.after, hopen, hclose, hb]

/-- The brackets in a list of type arguments are nested. -/
theorem behind_of_closeAngle {r : Tail ts} (h : closeAngle depth opened ts = some r) :
    ∃ block, ts = block ++ r.tokens ∧ Bracket.behind opened block = some [] := by
  replace h : (closeAngle depth opened ts).map (·.tokens) = some r.tokens := congrArg (Option.map (·.tokens)) h
  generalize r.tokens = rest at h ⊢
  clear r
  induction ts generalizing depth opened with
  | nil => nomatch h
  | cons t ts ih =>
    cases hangle : angleStep t.text with
    | some step =>
      have hnone := isNone_of_angleStep hangle
      rcases (closeAngle_cons_angle_iff hangle).mp h with ⟨-, h⟩ | ⟨-, rfl, rfl⟩
      · obtain ⟨block, rfl, hbehind⟩ := ih h
        exact ⟨t :: block, rfl, (Bracket.behind_cons_of_isNone hnone opened block).trans hbehind⟩
      · exact ⟨[t], rfl, Bracket.behind_cons_of_isNone hnone [] []⟩
    | none =>
      obtain ⟨-, -, opened', hafter, h⟩ := (closeAngle_cons_other_iff hangle).mp h
      obtain ⟨block, rfl, hbehind⟩ := ih h
      refine ⟨t :: block, rfl, ?_⟩
      rw [Bracket.behind_cons, hafter]
      exact hbehind

end CloseAngle

/-! ## Steps -/

namespace Eraser

/-- The frames are those of the brackets that are open. -/
def Opened (e : Eraser) (opened : List Bracket) : Prop := (e.frame :: e.outer).map (·.bracket) = opened.map some ++ [none]

/-- No bracket has been opened or closed. -/
structure SameBrackets (e e' : Eraser) : Prop where
  frame : e'.frame.bracket = e.frame.bracket
  outer : e'.outer = e.outer

theorem SameBrackets.opened {e e' : Eraser} {opened : List Bracket} (h : SameBrackets e e') (ho : e.Opened opened) :
    e'.Opened opened := by
  unfold Opened
  rw [List.map_cons, h.frame, h.outer]
  exact ho

theorem sameBrackets_onTrivia (e : Eraser) (t : Token) (ts : List Token) : SameBrackets e (onTrivia e t ts).1 := by
  unfold onTrivia
  split
  · split <;> exact ⟨rfl, rfl⟩
  · exact ⟨rfl, rfl⟩

theorem sameBrackets_retractExport (e : Eraser) : SameBrackets e e.retractExport := by
  unfold retractExport
  split <;> exact ⟨rfl, rfl⟩

theorem sameBrackets_noteWord (e : Eraser) (word : String) (next : List Token) : SameBrackets e (e.noteWord word next) := by
  unfold noteWord
  split
  · exact ⟨rfl, rfl⟩
  split
  · exact ⟨rfl, rfl⟩
  split <;> exact ⟨rfl, rfl⟩

variable {e e₁ : Eraser} {t : Token} {ts : List Token}

theorem sameBrackets_copyImport {e' : {e' : Eraser // weight e'.rest ≤ weight ts}} (h : copyImport e ts = .ok e') :
    SameBrackets e e'.1 := by
  induction ts generalizing e with
  | nil => nomatch h
  | cons t ts ih =>
    unfold copyImport at h
    simp only at h
    split at h
    · nomatch h
    split at h
    · obtain rfl := Except.ok.inj h
      exact ⟨rfl, rfl⟩
    split at h
    · rename_i e₁ he₁
      obtain rfl := Except.ok.inj h
      have hlater := ih he₁
      exact ⟨hlater.frame, hlater.outer⟩
    · nomatch h

theorem sameBrackets_copyExport {e' : Next (t :: ts)} (h : copyExport e t ts = .ok e') : SameBrackets e e'.1 := by
  unfold copyExport at h
  split at h
  · nomatch h
  simp only at h
  split at h
  · split at h
    · obtain rfl := Except.ok.inj h
      exact ⟨rfl, rfl⟩
    · obtain rfl := Except.ok.inj h
      exact ⟨rfl, rfl⟩
  · obtain rfl := Except.ok.inj h
    exact ⟨rfl, rfl⟩

theorem sameBrackets_onStatement {e' : Next (t :: ts)} (h : onStatement e t ts = .ok (some e')) : SameBrackets e e'.1 := by
  have hskip {r : Tail (t :: ts)} (hr : some (skipTo e.retractExport r) = some e') : SameBrackets e e'.1 := by
    obtain rfl := Option.some.inj hr
    have hretract := sameBrackets_retractExport e
    exact ⟨hretract.frame, hretract.outer⟩
  unfold onStatement at h
  simp only at h
  split at h
  · obtain ⟨r, _, hr⟩ := ok_of_map h
    exact hskip hr
  split at h
  · obtain ⟨r, _, hr⟩ := ok_of_map h
    exact hskip hr
  split at h
  · obtain ⟨r, _, hr⟩ := ok_of_map h
    exact hskip hr
  split at h
  · nomatch h
  split at h
  · nomatch h
  split at h
  · split at h
    · obtain rfl := Option.some.inj (Except.ok.inj h)
      exact ⟨rfl, rfl⟩
    · obtain ⟨r, hcopy, hr⟩ := ok_of_map h
      obtain rfl := Option.some.inj hr
      have hcopied := sameBrackets_copyImport hcopy
      exact ⟨hcopied.frame, hcopied.outer⟩
  split at h
  · obtain rfl := Option.some.inj (Except.ok.inj h)
    exact ⟨rfl, rfl⟩
  split at h
  · obtain ⟨r, hcopy, hr⟩ := ok_of_map h
    obtain rfl := Option.some.inj hr
    exact sameBrackets_copyExport hcopy
  · nomatch h

theorem sameBrackets_onWord {e' : Next (t :: ts)} (h : onWord e t ts = .ok e') : SameBrackets e e'.1 := by
  unfold onWord at h
  simp only at h
  split at h
  · nomatch h
  split at h
  · obtain rfl := Except.ok.inj h
    exact ⟨rfl, rfl⟩
  split at h
  · obtain ⟨r, _, rfl⟩ := ok_of_map h
    exact ⟨rfl, rfl⟩
  split at h
  · obtain ⟨r, _, rfl⟩ := ok_of_map h
    exact ⟨rfl, rfl⟩
  · obtain rfl := Except.ok.inj h
    have hnote := sameBrackets_noteWord e t.text (significant ts)
    exact ⟨hnote.frame, hnote.outer⟩

theorem sameBrackets_onIdentifier {e' : Next (t :: ts)} (h : onIdentifier e t ts = .ok e') : SameBrackets e e'.1 := by
  unfold onIdentifier at h
  split at h
  · obtain rfl := Except.ok.inj h
    exact ⟨rfl, rfl⟩
  split at h
  · obtain ⟨r, _, rfl⟩ := ok_of_map h
    exact ⟨rfl, rfl⟩
  split at h
  · split at h
    · nomatch h
    · rename_i e₁ he₁
      obtain rfl := Except.ok.inj h
      exact sameBrackets_onStatement he₁
    · exact sameBrackets_onWord h
  · exact sameBrackets_onWord h

/-- What a step at a token does to the frames: nothing, at a token that is no bracket, or what the bracket says, if it passes that alone.
In the first case, if several tokens are passed from a `<` on, they are a list in angle brackets. -/
inductive Turns (e : Eraser) (t : Token) (ts : List Token) (e' : Eraser) : Prop where
  | same (isNone : Bracket.IsNone t) (brackets : SameBrackets e e')
      (angle : t.text = "<" → e'.rest = ts ∨ ∃ r, matchAngle (t :: ts) = some r ∧ e'.rest = r.tokens) : Turns e t ts e'
  | opens {b : Bracket} (opened : Bracket.opened? t.text = some b) (frame : e'.frame.bracket = some b) (outer : e'.outer = e.frame :: e.outer)
      (rest : e'.rest = ts) : Turns e t ts e'
  | closes {b : Bracket} (opened : Bracket.opened? t.text = none) (closed : Bracket.closed? t.text = some b)
      (frame : e.frame.bracket = some b) (outer : e.outer = e'.frame :: e'.outer) (rest : e'.rest = ts) : Turns e t ts e'

theorem turns_onMark {e' : Next (t :: ts)} (h : onMark e t ts = .ok e') : Turns e t ts e'.1 := by
  unfold onMark at h
  split at h
  · rename_i hquestion
    have hnone : Bracket.IsNone t := by rw [Bracket.IsNone, hquestion]; decide
    have hangle (hlt : t.text = "<") : t.text ≠ "?" := by rw [hlt]; decide
    split at h
    · obtain rfl := Except.ok.inj h
      exact .same hnone ⟨rfl, rfl⟩ fun hlt => absurd hquestion (hangle hlt)
    · obtain rfl := Except.ok.inj h
      exact .same hnone ⟨rfl, rfl⟩ fun hlt => absurd hquestion (hangle hlt)
  split at h
  · rename_i hbang
    simp only [Bool.and_eq_true, decide_eq_true_eq] at hbang
    have hnone : Bracket.IsNone t := by rw [Bracket.IsNone, hbang.1]; decide
    obtain rfl := Except.ok.inj h
    exact .same hnone ⟨rfl, rfl⟩ fun hlt => by rw [hlt] at hbang; exact absurd hbang.1 (by decide)
  split at h
  · rename_i hcolon
    have hnone : Bracket.IsNone t := by rw [Bracket.IsNone, hcolon]; decide
    have hangle (hlt : t.text = "<") : t.text ≠ ":" := by rw [hlt]; decide
    split at h
    · obtain ⟨r, _, rfl⟩ := ok_of_map h
      exact .same hnone ⟨rfl, rfl⟩ fun hlt => absurd hcolon (hangle hlt)
    · obtain rfl := Except.ok.inj h
      refine .same hnone ⟨?_, rfl⟩ fun hlt => absurd hcolon (hangle hlt)
      show (onColon e).frame.bracket = _
      unfold onColon
      dsimp only
      split <;> rfl
  split at h
  · rename_i hlt
    have hnone : Bracket.IsNone t := by rw [Bracket.IsNone, hlt]; decide
    split at h
    · rename_i r hr
      split at h
      · obtain rfl := Except.ok.inj h
        exact .same hnone ⟨rfl, rfl⟩ fun _ => .inr ⟨r, hr, rfl⟩
      · obtain rfl := Except.ok.inj h
        exact .same hnone ⟨rfl, rfl⟩ fun _ => .inl rfl
    · obtain rfl := Except.ok.inj h
      exact .same hnone ⟨rfl, rfl⟩ fun _ => .inl rfl
  split at h
  · rename_i b _ hopen
    obtain rfl := Except.ok.inj h
    exact .opens hopen rfl rfl rfl
  · rename_i b hopen hclose
    unfold onClosing at h
    split at h
    · rename_i f outer houter
      split at h
      · rename_i hframe
        obtain rfl := Except.ok.inj h
        exact .closes hopen hclose hframe houter rfl
      · nomatch h
    · nomatch h
  · rename_i hopen hclose
    split at h
    · obtain rfl := Except.ok.inj h
      exact .same ⟨hopen, hclose⟩ ⟨rfl, rfl⟩ fun _ => .inl rfl
    · obtain rfl := Except.ok.inj h
      exact .same ⟨hopen, hclose⟩ ⟨rfl, rfl⟩ fun _ => .inl rfl

/-- What a step does to the frames, at a token that begins no regular expression. -/
theorem turns_of_step {e' : Next (t :: ts)} (ht : t.Shaped) (hslash : t.text ≠ "/" ∧ t.text ≠ "/=") (h : step e t ts = .ok e') :
    Turns e t ts e'.1 := by
  have hother (hkind : t.kind ≠ .punctuation) : Bracket.IsNone t ∧ t.text ≠ "<" := by
    have hbegins := beginsOther_of_shape ht hkind
    exact ⟨Bracket.isNone_of_beginsOther hbegins, ne_of_beginsOther hbegins (by decide)⟩
  unfold step at h
  split at h
  · rename_i htrivia
    obtain rfl := Except.ok.inj h
    obtain ⟨hnone, hlt⟩ := hother fun hkind => by simp [Token.isTrivia, hkind] at htrivia
    exact .same hnone (sameBrackets_onTrivia e t ts) fun heq => absurd heq hlt
  split at h
  · rename_i hkind
    obtain ⟨hnone, hlt⟩ := hother (by rw [hkind]; decide)
    exact .same hnone (sameBrackets_onIdentifier h) fun heq => absurd heq hlt
  split at h
  · unfold onPunctuation at h
    rw [if_neg (by simp [hslash.1, hslash.2])] at h
    exact turns_onMark h
  · rename_i hkind
    obtain rfl := Except.ok.inj h
    obtain ⟨hnone, hlt⟩ := hother hkind
    exact .same hnone ⟨rfl, rfl⟩ fun heq => absurd heq hlt

/-! ## The walk -/

/-- The tokens that the walk passes step by step, in the order of the source. -/
def blocks (e : Eraser) : List (List Token) :=
  match hrest : e.rest with
  | [] => []
  | t :: ts =>
    match step e t ts with
    | .error _ => []
    | .ok e' =>
      have : weight e'.1.rest < weight e.rest := by rw [hrest]; exact e'.2
      (t :: ts).take ((t :: ts).length - e'.1.rest.length) :: blocks e'.1
termination_by weight e.rest

theorem moves_of_step {e : Eraser} {t : Token} {ts : List Token} {e' : Next (t :: ts)} (hrest : e.rest = t :: ts)
    (hslash : t.text ≠ "/" ∧ t.text ≠ "/=") (h : step e t ts = .ok e') : Moves e (t :: ts) e'.1 := by
  rcases moves_or_splices (.intro hrest h) with hmoves | ⟨t', ts', n, hrest', hmark, -⟩
  · rwa [hrest] at hmoves
  · obtain ⟨rfl, -⟩ := List.cons.inj (hrest.symm.trans hrest')
    exact absurd hmark (by simp [hslash.1, hslash.2])

/-- A block of tokens that the walk passes in one step, and whose brackets need not be nested: it is no list in angle brackets. -/
def Unread (block : List Token) : Prop := 1 < block.length ∧ headIn block ["<"] = false

instance (block : List Token) : Decidable (Unread block) := inferInstanceAs (Decidable (_ ∧ _))

/-- The frames behind a step are those of the brackets that are open behind the tokens that it passes, if these are nested in a block that
is not read. -/
theorem opened_of_step {e : Eraser} {t : Token} {ts block : List Token} {e' : Next (t :: ts)} {opened : List Bracket} (ht : t.Shaped)
    (hslash : t.text ≠ "/" ∧ t.text ≠ "/=") (h : step e t ts = .ok e') (hblock : t :: ts = block ++ e'.1.rest)
    (hnested : Unread block → Balanced block) (ho : e.Opened opened) :
    ∃ opened', e'.1.Opened opened' ∧ Bracket.behind opened block = some opened' := by
  have hone (hrest : e'.1.rest = ts) : block = [t] := by
    rw [hrest] at hblock
    exact List.append_cancel_right (hblock.symm.trans (List.singleton_append).symm)
  cases turns_of_step ht hslash h with
  | same hnone hsame hangle =>
    refine ⟨opened, hsame.opened ho, ?_⟩
    have hpositive : block ≠ [] := by
      rintro rfl
      exact absurd (congrArg weight hblock) (Nat.ne_of_gt e'.2)
    obtain ⟨u, us, rfl⟩ := List.exists_cons_of_ne_nil hpositive
    obtain ⟨rfl, -⟩ := List.cons.inj hblock
    by_cases hlong : 1 < (t :: us).length
    · by_cases hlt : t.text = "<"
      · -- a list in angle brackets, or the bracket alone
        rcases hangle hlt with hrest | ⟨r, hr, hrest⟩
        · rw [hone hrest, Bracket.behind_cons_of_isNone hnone]
          rfl
        · obtain ⟨list, hlist, hbehind⟩ := behind_of_closeAngle hr
          rw [hrest] at hblock
          rw [List.append_cancel_right (hblock.symm.trans hlist)]
          exact Bracket.behind_append_outer opened hbehind
      · refine (hnested ⟨hlong, ?_⟩).behind opened
        simp [headIn, hlt]
    · have hnil : us = [] := by simpa using hlong
      rw [hnil, Bracket.behind_cons_of_isNone hnone]
      rfl
  | @opens b hopen hframe houter hrest =>
    refine ⟨b :: opened, ?_, ?_⟩
    · rw [Opened, List.map_cons, hframe, houter]
      exact congrArg (some b :: ·) ho
    · have hafter : Bracket.after opened t = some (b :: opened) := by simp [Bracket.after, hopen]
      rw [hone hrest, Bracket.behind_cons, hafter]
      rfl
  | @closes b hopen hclose hframe houter hrest =>
    rw [Opened, houter, List.map_cons, hframe] at ho
    cases opened with
    | nil => exact absurd (List.cons.inj ho).1 (Option.some_ne_none b)
    | cons b' outer =>
      obtain ⟨hb, houter'⟩ := List.cons.inj ho
      obtain rfl := Option.some.inj hb
      have hafter : Bracket.after (b :: outer) t = some outer := by simp [Bracket.after, hopen, hclose]
      refine ⟨outer, houter', ?_⟩
      rw [hone hrest, Bracket.behind_cons, hafter]
      rfl

/-- Where the walk gets to the end, all tokens in front of it are nested in the brackets that are open, if those of every block are that
is not read. -/
theorem behind_of_walk {e e' : Eraser} {opened : List Bracket} (hshaped : ∀ t ∈ e.rest, t.Shaped)
    (hslash : ∀ t ∈ e.rest, t.text ≠ "/" ∧ t.text ≠ "/=") (hnested : ∀ block ∈ blocks e, Unread block → Balanced block)
    (ho : e.Opened opened) (h : walk e = .ok e') : Bracket.behind opened e.rest = some [] := by
  fun_induction walk e generalizing opened with
  | case1 e hrest =>
    unfold finish at h
    split at h
    · cases h
    · rename_i hnone
      rw [hrest]
      cases opened with
      | nil => rfl
      | cons b outer =>
        rw [Opened, List.map_cons, hnone] at ho
        exact absurd (List.cons.inj ho).1.symm (Option.some_ne_none b)
  | case2 => cases h
  | case3 e t ts hrest e₁ hs hless ih =>
    have ht := List.mem_cons_self (a := t) (l := ts)
    obtain ⟨block, hblock, -⟩ := moves_of_step hrest (hslash t (hrest ▸ ht)) hs
    have hblocks : blocks e = block :: blocks e₁.1 := by
      have htake : (t :: ts).take ((t :: ts).length - e₁.1.rest.length) = block := by
        have hlength : (t :: ts).length - e₁.1.rest.length = block.length := by simp [congrArg List.length hblock]
        rw [hlength, congrArg (List.take block.length) hblock, List.take_left]
      rw [blocks]
      split
      · rename_i hnil
        exact absurd (hrest.symm.trans hnil) (List.cons_ne_nil t ts)
      · rename_i t' ts' hcons
        obtain ⟨rfl, rfl⟩ := List.cons.inj (hrest.symm.trans hcons)
        rw [hs]
        simp only [htake]
    rw [hblocks] at hnested
    have hmem (u : Token) (hu : u ∈ e₁.1.rest) : u ∈ e.rest := by
      rw [hrest, hblock]
      exact List.mem_append_right _ hu
    obtain ⟨opened', ho', hbehind⟩ := opened_of_step (hshaped t (hrest ▸ ht)) (hslash t (hrest ▸ ht)) hs hblock
      (hnested block List.mem_cons_self) ho
    rw [hrest, (hblock : t :: ts = _), Bracket.behind_append, hbehind, Option.bind_some]
    exact ih (fun u hu => hshaped u (hmem u hu)) (fun u hu => hslash u (hmem u hu))
      (fun b hb => hnested b (List.mem_cons_of_mem _ hb)) ho' h

end Eraser

/-- A source whose brackets are not nested is refused, wherever that is: in what the walk reads, or in a list of type parameters. It may
be accepted only if there is a block of tokens that the walk passes in one step without reading, and whose brackets are not nested. -/
theorem erase_unbalanced {content : String} {ts : List Token} (htokens : tokenize content.toList 0 .first = .ok ts)
    (hslash : ∀ t ∈ ts, t.text ≠ "/" ∧ t.text ≠ "/=") (hunbalanced : ¬Balanced ts)
    (hblocks : ∀ block ∈ Eraser.blocks (.start ts), Eraser.Unread block → Balanced block) : ∃ r, erase content = .error r := by
  cases herase : erase content with
  | error r => exact ⟨r, rfl⟩
  | ok erased =>
    exfalso
    unfold erase at herase
    rw [htokens] at herase
    obtain ⟨e, hwalk, -⟩ := Eraser.ok_of_map herase
    have hshaped := shaped_of_lexFrom (lexFrom_of_tokenize htokens)
    exact hunbalanced ((balanced_iff ts).mpr (Eraser.behind_of_walk (e := .start ts) hshaped hslash hblocks rfl hwalk))

/-- The brackets of a type that is skipped are nested; behind it one is left open. -/
theorem erase_unbalanced_value :
    ∃ ts, tokenize "let x: [A] = (y;".toList 0 .first = .ok ts ∧ (∀ t ∈ ts, t.text ≠ "/" ∧ t.text ≠ "/=") ∧ ¬Balanced ts ∧
      (∀ block ∈ Eraser.blocks (.start ts), Eraser.Unread block → Balanced block) ∧ ∃ r, erase "let x: [A] = (y;" = .error r := by
  obtain ⟨ts, hts⟩ : ∃ ts : List Token, ts =
      [⟨.identifier, "let", 0, ⟨1, 1⟩⟩, ⟨.blank, " ", 3, ⟨1, 4⟩⟩, ⟨.identifier, "x", 4, ⟨1, 5⟩⟩, ⟨.punctuation, ":", 5, ⟨1, 6⟩⟩,
       ⟨.blank, " ", 6, ⟨1, 7⟩⟩, ⟨.punctuation, "[", 7, ⟨1, 8⟩⟩, ⟨.identifier, "A", 8, ⟨1, 9⟩⟩, ⟨.punctuation, "]", 9, ⟨1, 10⟩⟩,
       ⟨.blank, " ", 10, ⟨1, 11⟩⟩, ⟨.punctuation, "=", 11, ⟨1, 12⟩⟩, ⟨.blank, " ", 12, ⟨1, 13⟩⟩, ⟨.punctuation, "(", 13, ⟨1, 14⟩⟩,
       ⟨.identifier, "y", 14, ⟨1, 15⟩⟩, ⟨.punctuation, ";", 15, ⟨1, 16⟩⟩] := ⟨_, rfl⟩
  have htokens : tokenize "let x: [A] = (y;".toList 0 .first = .ok ts := by
    rw [hts]
    cbv
  have hslash : ∀ t ∈ ts, t.text ≠ "/" ∧ t.text ≠ "/=" := by
    rw [hts]
    decide
  have hunbalanced : ¬Balanced ts := by
    rw [hts]
    decide
  have hblocks : ∀ block ∈ Eraser.blocks (.start ts), Eraser.Unread block → Balanced block := by
    have heq : Eraser.blocks (.start ts) = (ts.take 3).map ([·]) ++ (ts.drop 3).take 5 :: (ts.drop 8).map ([·]) := by
      rw [hts]
      cbv
    rw [heq, hts]
    decide
  exact ⟨ts, htokens, hslash, hunbalanced, hblocks, erase_unbalanced htokens hslash hunbalanced hblocks⟩

/-- Only the parentheses of the type are counted, so that the square bracket in them goes with the type. -/
theorem erase_unbalanced_type :
    ∃ ts, tokenize "let x: ([) = 1;".toList 0 .first = .ok ts ∧ (∀ t ∈ ts, t.text ≠ "/" ∧ t.text ≠ "/=") ∧ ¬Balanced ts ∧
      erase "let x: ([) = 1;" = .ok ⟨"let x = 1;", []⟩ := by
  refine ⟨[⟨.identifier, "let", 0, ⟨1, 1⟩⟩, ⟨.blank, " ", 3, ⟨1, 4⟩⟩, ⟨.identifier, "x", 4, ⟨1, 5⟩⟩, ⟨.punctuation, ":", 5, ⟨1, 6⟩⟩,
    ⟨.blank, " ", 6, ⟨1, 7⟩⟩, ⟨.punctuation, "(", 7, ⟨1, 8⟩⟩, ⟨.punctuation, "[", 8, ⟨1, 9⟩⟩, ⟨.punctuation, ")", 9, ⟨1, 10⟩⟩,
    ⟨.blank, " ", 10, ⟨1, 11⟩⟩, ⟨.punctuation, "=", 11, ⟨1, 12⟩⟩, ⟨.blank, " ", 12, ⟨1, 13⟩⟩, ⟨.number, "1", 13, ⟨1, 14⟩⟩,
    ⟨.punctuation, ";", 14, ⟨1, 15⟩⟩], ?_, by decide, by decide, ?_⟩
  · cbv
  · cbv

end ScriptLoader.Syntax
