import ScriptLoader.Proofs.Lexer.Lexeme
import ScriptLoader.Syntax.Eraser

/-!
# Tokens without their layout

A token without its place, and with no more of its blank space than whether it breaks a line, is `bare`. A function that skips tokens
leaves of bare tokens what it leaves of the tokens themselves, made bare (`skipBracket_bare`, `skipAngle_bare`). Only that much of its
answer is looked at (`outcome`): what is left, or the fault, wherever that shows.
-/

namespace ScriptLoader.Syntax

/-! ## Bare tokens -/

/-- The text of blank space. -/
def isBlankText (s : String) : Bool := s.toList.all isBlankChar

namespace Token

/-- The token without its place; of blank space only whether it breaks a line. -/
def bare (t : Token) : Token :=
  ⟨t.kind, if t.kind = .blank ∧ isBlankText t.text = true then (if t.breaksLine then "\n" else " ") else t.text, 0, .first⟩

@[simp] theorem bare_kind (t : Token) : t.bare.kind = t.kind := by cases t; rfl

@[simp] theorem bare_isTrivia (t : Token) : t.bare.isTrivia = t.isTrivia := by cases t; rfl

@[simp] theorem bare_isLiteral (t : Token) : t.bare.isLiteral = t.isLiteral := by cases t; rfl

theorem kind_ne_blank {t : Token} (h : t.isTrivia = false) : t.kind ≠ .blank := fun hk => by simp [isTrivia, hk] at h

/-- Only the text of blank space changes. -/
theorem bare_text {t : Token} (h : t.kind ≠ .blank) : t.bare.text = t.text := if_neg fun hblank => h hblank.1

@[simp] theorem bare_breaksLine (t : Token) : t.bare.breaksLine = t.breaksLine := by
  by_cases hblank : t.kind = .blank ∧ isBlankText t.text = true
  · have htext : t.bare.text = if t.breaksLine then "\n" else " " := if_pos hblank
    rw [breaksLine, htext, bare_kind, hblank.1]
    cases t.breaksLine <;> rfl
  · have htext : t.bare.text = t.text := if_neg hblank
    rw [breaksLine, htext]
    rfl

/-- No text is taken for another one, unless it is that of blank space. -/
theorem bare_text_eq {t : Token} {s : String} (hs : isBlankText s = false) : (t.bare.text = s) = (t.text = s) := by
  by_cases hblank : t.kind = .blank ∧ isBlankText t.text = true
  · have htext : t.bare.text = if t.breaksLine then "\n" else " " := if_pos hblank
    refine propext (iff_of_false ?_ ?_)
    · rw [htext]
      rintro rfl
      cases hbreak : t.breaksLine <;> rw [hbreak] at hs <;> exact absurd hs (by decide)
    · rintro rfl
      exact absurd (hblank.2.symm.trans hs) (by decide)
  · rw [show t.bare.text = t.text from if_neg hblank]

theorem contains_bare_text {t : Token} {texts : List String} (h : texts.all (fun s => !isBlankText s) = true) :
    texts.contains t.bare.text = texts.contains t.text := by
  induction texts with
  | nil => rfl
  | cons s texts ih =>
    rw [List.all_cons, Bool.and_eq_true, Bool.not_eq_true'] at h
    have hs : (t.bare.text == s) = (t.text == s) := by rw [Bool.eq_iff_iff, beq_iff_eq, beq_iff_eq, bare_text_eq h.1]
    rw [List.contains_cons, List.contains_cons, hs, ih h.2]

end Token

/-- The tokens without their layout. -/
def bares (ts : List Token) : List Token := ts.map Token.bare

@[simp] theorem bares_nil : bares [] = [] := rfl

@[simp] theorem bares_cons (t : Token) (ts : List Token) : bares (t :: ts) = t.bare :: bares ts := rfl

theorem bares_append (ts us : List Token) : bares (ts ++ us) = bares ts ++ bares us := List.map_append

theorem bares_tail (ts : List Token) : (bares ts).tail = bares ts.tail := List.map_tail.symm

theorem length_lt_of_significant {t : Token} {ts us : List Token} (h : significant ts = t :: us) : us.length < ts.length := by
  have hle := (significant_suffix ts).length_le
  rwa [h] at hle

theorem significant_bares (ts : List Token) : significant (bares ts) = bares (significant ts) := by
  rw [significant, bares, List.dropWhile_map]
  rfl

theorem headKind_bares (ts : List Token) : headKind (bares ts) = headKind ts := by
  cases ts <;> rfl

theorem headIsName_bares (ts : List Token) : headIsName (bares ts) = headIsName ts := by
  rw [headIsName, headKind_bares, headIsName]

theorem headIn_bares {texts : List String} (h : texts.all (fun s => !isBlankText s) = true) (ts : List Token) :
    headIn (bares ts) texts = headIn ts texts := by
  cases ts with
  | nil => rfl
  | cons t ts => exact Token.contains_bare_text h

theorem isBlankText_opener (b : Bracket) : isBlankText b.opener = false := by cases b <;> decide

theorem isBlankText_closer (b : Bracket) : isBlankText b.closer = false := by cases b <;> decide

/-! ## Outcomes -/

section Outcomes

variable {α β γ : Type} {ts : List Token}

/-- What there is to an answer apart from places: `f` of the result, or the fault. -/
def outcome (f : α → β) (x : Except Refusal α) : Except Fault β := (x.map f).mapError (·.fault)

@[simp] theorem outcome_ok (f : α → β) (a : α) : outcome f (.ok a) = .ok (f a) := rfl

@[simp] theorem outcome_error (f : α → β) (r : Refusal) : outcome f (.error r) = .error r.fault := rfl

theorem outcome_map (f : β → γ) (g : α → β) (x : Except Refusal α) : outcome f (x.map g) = outcome (fun a => f (g a)) x := by
  cases x <;> rfl

theorem map_outcome (g : β → γ) (f : α → β) (x : Except Refusal α) : (outcome f x).map g = outcome (fun a => g (f a)) x := by
  cases x <;> rfl

theorem outcome_eq_ok_iff {f : α → β} {x : Except Refusal α} {b : β} : outcome f x = .ok b ↔ ∃ a, x = .ok a ∧ f a = b := by
  cases x <;> simp

theorem outcome_eq_error_iff {f : α → β} {x : Except Refusal α} {fault : Fault} :
    outcome f x = .error fault ↔ ∃ r, x = .error r ∧ r.fault = fault := by
  cases x <;> simp

@[simp] theorem outcome_refuseAt (f : α → β) (fault : Fault) (ts : List Token) : outcome f (refuseAt fault ts) = .error fault := rfl

/-- What is left, or the fault. -/
abbrev left (x : Except Refusal (Rest ts)) : Except Fault (List Token) := outcome (·.tokens) x

/-- What is left behind one token or more, or the fault. -/
abbrev leftBehind (x : Except Refusal (Tail ts)) : Except Fault (List Token) := outcome (·.tokens) x

theorem length_lt_of_leftBehind {x : Except Refusal (Tail ts)} {rest : List Token} (h : leftBehind x = .ok rest) :
    rest.length < ts.length := by
  cases x with
  | error r => nomatch h
  | ok r =>
    obtain rfl := Except.ok.inj h
    exact r.shorter

/-- An outcome with all tokens made bare. -/
def bareOutcome (x : Except Fault (List Token)) : Except Fault (List Token) := x.map bares

@[simp] theorem bareOutcome_ok (ts : List Token) : bareOutcome (.ok ts) = .ok (bares ts) := rfl

/-- Skipping that goes on with what is left goes on with the bare tokens that are left. -/
theorem bareOutcome_bind {x : Except Fault (List Token)} {f g : List Token → Except Fault (List Token)}
    (h : ∀ r, x = .ok r → g (bares r) = bareOutcome (f r)) : (bareOutcome x).bind g = bareOutcome (x.bind f) := by
  cases x with
  | error fault => rfl
  | ok r => exact h r rfl

theorem bareOutcome_ite {c : Prop} [Decidable c] (x y : Except Fault (List Token)) :
    bareOutcome (if c then x else y) = if c then bareOutcome x else bareOutcome y := by
  split <;> rfl

/-- What two readers leave alike, they lead to alike. -/
theorem outcome_eq_of_bare {δ : Type} {x : Except Refusal α} {y : Except Refusal β} {f : α → List Token} {g : β → List Token}
    (h : outcome g y = bareOutcome (outcome f x)) {f' : α → δ} {g' : β → δ} (hrest : ∀ a b, g b = bares (f a) → g' b = f' a) :
    outcome g' y = outcome f' x := by
  cases x with
  | error r =>
    cases y with
    | error s => exact congrArg Except.error (Except.error.inj h)
    | ok b => cases h
  | ok a =>
    cases y with
    | error s => cases h
    | ok b => exact congrArg Except.ok (hrest a b (Except.ok.inj h))

end Outcomes

/-! ## Brackets -/

theorem left_skipPast (b : Bracket) (inner : Nat) (t : Token) (ts : List Token) : left (skipPast b inner (t :: ts)) =
    if t.text = b.opener then left (skipPast b (inner + 1) ts)
    else if t.text = b.closer then
      match inner with
      | 0 => .ok ts
      | n + 1 => left (skipPast b n ts)
    else left (skipPast b inner ts) := by
  conv => lhs; unfold skipPast
  split
  · exact outcome_map _ _ _
  split
  · cases inner with
    | zero => rfl
    | succ n => exact outcome_map _ _ _
  · exact outcome_map _ _ _

theorem skipPast_bare (b : Bracket) (inner : Nat) (ts : List Token) :
    left (skipPast b inner (bares ts)) = bareOutcome (left (skipPast b inner ts)) := by
  induction ts generalizing inner with
  | nil => rfl
  | cons t ts ih =>
    rw [bares_cons, left_skipPast, left_skipPast, bareOutcome_ite, bareOutcome_ite]
    simp only [Token.bare_text_eq (isBlankText_opener b), Token.bare_text_eq (isBlankText_closer b)]
    split
    · exact ih (inner + 1)
    split
    · cases inner with
      | zero => rfl
      | succ n => exact ih n
    · exact ih inner

theorem skipBracket_bare (b : Bracket) (ts : List Token) :
    leftBehind (skipBracket b (bares ts)) = bareOutcome (leftBehind (skipBracket b ts)) := by
  cases ts with
  | nil => rfl
  | cons t ts =>
    rw [bares_cons, skipBracket, skipBracket, leftBehind, outcome_map, leftBehind, outcome_map]
    exact skipPast_bare b 0 ts


/-! ## Type arguments -/

theorem angleStep_bare (t : Token) : angleStep t.bare.text = angleStep t.text := by
  simp (disch := decide) only [angleStep, Token.bare_text_eq]

theorem opened?_bare (t : Token) : Bracket.opened? t.bare.text = Bracket.opened? t.text := by
  simp (disch := decide) only [Bracket.opened?, Token.bare_text_eq]

theorem closed?_bare (t : Token) : Bracket.closed? t.bare.text = Bracket.closed? t.text := by
  simp (disch := decide) only [Bracket.closed?, Token.bare_text_eq]

theorem mayStandInTypeArguments_bare (t : Token) : mayStandInTypeArguments t.bare = mayStandInTypeArguments t := by
  rw [mayStandInTypeArguments, Token.contains_bare_text (by decide)]
  rfl

theorem closeAngle_bare (depth : Int) (opened : List Bracket) (ts : List Token) :
    (closeAngle depth opened (bares ts)).map (·.tokens) = (closeAngle depth opened ts).map fun r => bares r.tokens := by
  induction ts generalizing depth opened with
  | nil => rfl
  | cons t ts ih =>
    have hgo (depth : Int) (opened : List Bracket) :
        ((closeAngle depth opened (bares ts)).map (·.widen (List.suffix_cons t.bare (bares ts)))).map (·.tokens) =
          ((closeAngle depth opened ts).map (·.widen (List.suffix_cons t ts))).map fun r => bares r.tokens := by
      rw [Option.map_map, Option.map_map]
      exact ih depth opened
    rw [bares_cons, closeAngle, closeAngle, angleStep_bare, opened?_bare, closed?_bare, mayStandInTypeArguments_bare]
    simp (disch := decide) only [Token.bare_text_eq]
    split
    · split
      · split <;> rfl
      · exact hgo _ _
    split
    · exact hgo _ _
    split
    · split
      · split
        · exact hgo _ _
        · rfl
      · rfl
    split
    · rfl
    split
    · exact hgo _ _
    · rfl

theorem skipAngle_bare (ts : List Token) : leftBehind (skipAngle (bares ts)) = bareOutcome (leftBehind (skipAngle ts)) := by
  have hangle := closeAngle_bare 0 [] ts
  rw [skipAngle, skipAngle, matchAngle, matchAngle]
  cases hr : closeAngle 0 [] ts <;> cases hr' : closeAngle 0 [] (bares ts) <;> rw [hr, hr'] at hangle
  · rfl
  · cases hangle
  · cases hangle
  · exact congrArg Except.ok (Option.some.inj hangle)

end ScriptLoader.Syntax
