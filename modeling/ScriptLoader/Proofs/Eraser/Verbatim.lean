import Mathlib
import ScriptLoader.Proofs.Eraser.Run
import ScriptLoader.Proofs.Eraser.Words
import ScriptLoader.Proofs.Lexer.Lexeme
import ScriptLoader.Proofs.Lexer.Meaning

/-!
# Sources without type syntax

A fragment of the plain sources (`Plain`) on which the eraser has nothing to do: none of its words stands where it reads it, and each
colon belongs to a condition or to an object. Such a source comes out unchanged where its brackets are nested, and is refused for a
bracket where they are not (`erase_plain`). The walk mirrors the nesting of the brackets behind it (`Verbatim`).
-/

namespace ScriptLoader.Syntax

/-! ## Nesting -/

/-- A bracket that is open, or the whole source, with the tokens that stand directly in it, the latest first. -/
structure Level where
  bracket : Option Bracket
  direct : List Token

/-- The levels around a place in a source: the innermost one, and those around it. -/
structure Nesting where
  inner : Level
  outer : List Level

/-- The levels behind one more token; none where it closes another bracket than the innermost one. -/
def Nesting.enter (n : Nesting) (t : Token) : Option Nesting :=
  match Bracket.opened? t.text, Bracket.closed? t.text with
  | some b, _ => some ⟨⟨some b, []⟩, n.inner :: n.outer⟩
  | none, some b =>
    match n.outer with
    | l :: outer => if n.inner.bracket = some b then some ⟨l, outer⟩ else none
    | [] => none
  | none, none => some ⟨⟨n.inner.bracket, t :: n.inner.direct⟩, n.outer⟩

/-- The levels behind the tokens `before`, of which the latest is the first. -/
def nesting : (before : List Token) → Option Nesting
  | [] => some ⟨⟨none, []⟩, []⟩
  | t :: before => (nesting before).bind (·.enter t)

/-- Every bracket closes the innermost one that is open, and none stays open. -/
def Balanced (ts : List Token) : Prop := ∃ n, nesting ts.reverse = some n ∧ n.inner.bracket = none

/-- Question marks that no colon has answered yet, among tokens of which the latest is the first. -/
def unanswered : List Token → Nat
  | [] => 0
  | t :: ts => if t.text = "?" then unanswered ts + 1 else if t.text = ":" then unanswered ts - 1 else unanswered ts

/-! ## The fragment -/

/-- A colon behind the key of an object, which declares no variable directly in it. -/
def followsKey (before : List Token) (l : Level) : Prop :=
  l.bracket = some .curly ∧ (∀ d ∈ l.direct, d.text ∉ Eraser.declarationWords) ∧
    ∃ k ∈ [TokenKind.identifier, .string, .number], headKind (significant before) = some k

instance (before : List Token) (l : Level) : Decidable (followsKey before l) :=
  inferInstanceAs (Decidable (_ ∧ _ ∧ _))

/-- A token that the eraser leaves alone between `before`, of which the latest is the first, and `after`. -/
structure PlainAt (before : List Token) (t : Token) (after : List Token) : Prop where
  word : t.text ∈ typeWords → headIn (significant before) [".", "?."] = true
  slash : t.text ∈ ["/", "/="] → (significant before).head?.any endsExpression = true
  bang : t.text = "!" → before.head?.all (fun p => p.isTrivia || !endsExpression p) = true
  question : t.text = "?" → headIn (significant after) [":", ",", ")", "="] = false
  colon : t.text = ":" → ∀ n ∈ nesting before, 0 < unanswered n.inner.direct ∨ followsKey before n.inner

instance (before : List Token) (t : Token) (after : List Token) : Decidable (PlainAt before t after) :=
  decidable_of_iff (_ ∧ _ ∧ _ ∧ _ ∧ _) ⟨fun ⟨h₁, h₂, h₃, h₄, h₅⟩ => ⟨h₁, h₂, h₃, h₄, h₅⟩,
    fun h => ⟨h.word, h.slash, h.bang, h.question, h.colon⟩⟩

/-- Each of the tokens is left alone behind `before`. -/
def PlainFrom (before : List Token) : List Token → Prop
  | [] => True
  | t :: after => PlainAt before t after ∧ PlainFrom (t :: before) after

instance decidablePlainFrom : (before ts : List Token) → Decidable (PlainFrom before ts)
  | _, [] => isTrue trivial
  | before, t :: after => @instDecidableAnd _ _ _ (decidablePlainFrom (t :: before) after)

/-- A source without type syntax. Angle brackets do not look like a list of type arguments. -/
structure Plain (ts : List Token) : Prop where
  angles : (∀ t ∈ ts, t.text ≠ "<") ∨ ∀ t ∈ ts, t.text ∉ [">", ">>", ">>>"]
  each : PlainFrom [] ts

/-! ## What stands before and behind a place -/

/-- A token that is no bracket stands directly in the innermost level. -/
theorem Nesting.enter_of_beginsOther (n : Nesting) {t : Token} (h : beginsOther t.text.toList = true) :
    n.enter t = some ⟨⟨n.inner.bracket, t :: n.inner.direct⟩, n.outer⟩ := by
  have hopen : Bracket.opened? t.text = none := by
    rw [Bracket.opened?, if_neg (ne_of_beginsOther h (by decide)), if_neg (ne_of_beginsOther h (by decide)),
      if_neg (ne_of_beginsOther h (by decide))]
  have hclose : Bracket.closed? t.text = none := by
    rw [Bracket.closed?, if_neg (ne_of_beginsOther h (by decide)), if_neg (ne_of_beginsOther h (by decide)),
      if_neg (ne_of_beginsOther h (by decide))]
  rw [Nesting.enter, hopen, hclose]

theorem unanswered_cons_of_beginsOther {t : Token} (h : beginsOther t.text.toList = true) (ts : List Token) :
    unanswered (t :: ts) = unanswered ts := by
  rw [unanswered, if_neg (ne_of_beginsOther h (by decide)), if_neg (ne_of_beginsOther h (by decide))]

/-- Trivia open and close nothing and answer no question mark. -/
theorem nesting_append_of_trivia {blanks before : List Token} {n : Nesting} (hn : nesting before = some n)
    (hshape : ∀ b ∈ blanks, b.Shaped) (hblank : ∀ b ∈ blanks, b.isTrivia = true) :
    ∃ m, nesting (blanks ++ before) = some m ∧ m.inner.bracket = n.inner.bracket ∧
      unanswered m.inner.direct = unanswered n.inner.direct := by
  induction blanks with
  | nil => exact ⟨n, hn, rfl, rfl⟩
  | cons b blanks ih =>
    obtain ⟨m, hm, hbracket, hcount⟩ :=
      ih (fun c hc => hshape c (List.mem_cons_of_mem _ hc)) fun c hc => hblank c (List.mem_cons_of_mem _ hc)
    have hb := (hshape b List.mem_cons_self).beginsOther_of_trivia (hblank b List.mem_cons_self)
    refine ⟨⟨⟨m.inner.bracket, b :: m.inner.direct⟩, m.outer⟩, ?_, hbracket, (unanswered_cons_of_beginsOther hb _).trans hcount⟩
    rw [List.cons_append, nesting, hm]
    exact m.enter_of_beginsOther hb

/-- What is left alone further on: the next token that is no trivia. -/
theorem PlainFrom.next {before ts us : List Token} {u : Token} (h : PlainFrom before ts) (hu : significant ts = u :: us) :
    ∃ blanks, (∀ b ∈ blanks, b ∈ ts ∧ b.isTrivia = true) ∧ PlainAt (blanks ++ before) u us := by
  induction ts generalizing before with
  | nil => cases hu
  | cons t ts ih =>
    cases ht : t.isTrivia with
    | true =>
      have htail : significant ts = u :: us := by
        rw [significant, List.dropWhile_cons, ht] at hu
        exact hu
      obtain ⟨blanks, hblanks, hplain⟩ := ih h.2 htail
      refine ⟨blanks ++ [t], ?_, by rw [List.append_assoc]; exact hplain⟩
      intro b hb
      rcases List.mem_append.mp hb with hb | hb
      · exact ⟨List.mem_cons_of_mem _ (hblanks b hb).1, (hblanks b hb).2⟩
      · rw [List.mem_singleton.mp hb]
        exact ⟨List.mem_cons_self, ht⟩
    | false =>
      rw [significant_cons_of_not ht] at hu
      injection hu with htu hus
      subst htu hus
      exact ⟨[], List.forall_mem_nil _, h.1⟩

/-! ## The state of the walk -/

/-- The module that a reference comment names. -/
def reference? (t : Token) : Option Specifier :=
  if t.kind = .lineComment then (Eraser.referencePath? t.text).map fun path => ⟨relativeSpecifier path, t.position.line⟩
  else none

namespace Eraser

/-- Trivia are kept, and the modules noted that reference comments name. -/
theorem onTrivia_eq (e : Eraser) (t : Token) (ts : List Token) :
    onTrivia e t ts = keep { e with specifiers := (reference? t).toList ++ e.specifiers } t ts := by
  unfold onTrivia reference?
  split
  · cases referencePath? t.text <;> rfl
  · rfl

/-- A frame agrees with the level of its bracket. -/
structure Mirrors (f : Frame) (l : Level) : Prop where
  bracket : f.bracket = l.bracket
  classBody : f.classBody = false
  conditions : f.conditions = unanswered l.direct
  caseLabels : f.caseLabels = 0
  declaring : f.declaring = true → ∃ d ∈ l.direct, d.text ∈ declarationWords

/-- The walk has kept all it has passed, and its frames agree with the levels behind it. -/
structure Verbatim (e : Eraser) (n : Nesting) : Prop where
  kept : e.kept = e.passed
  levels : nesting e.passed = some n
  inner : Mirrors e.frame n.inner
  outer : List.Forall₂ Mirrors e.outer n.outer
  classAhead : e.classAhead = false
  specifiers : e.specifiers = e.passed.filterMap reference?

/-- A declaration that has begun in a level is still there behind one more token. -/
theorem Mirrors.still_declaring {f : Frame} {l : Level} (h : Mirrors f l) {t : Token} (hd : f.declaring = true) :
    ∃ d ∈ t :: l.direct, d.text ∈ declarationWords :=
  have ⟨d, hmem, htext⟩ := h.declaring hd
  ⟨d, List.mem_cons_of_mem _ hmem, htext⟩

/-- A frame still agrees with its level when another token stands directly in it. -/
theorem Mirrors.push {f : Frame} {l : Level} (h : Mirrors f l) {t : Token} (hquestion : t.text ≠ "?") (hcolon : t.text ≠ ":") :
    Mirrors f ⟨l.bracket, t :: l.direct⟩ where
  bracket := h.bracket
  classBody := h.classBody
  conditions := by rw [unanswered, if_neg hquestion, if_neg hcolon, h.conditions]
  caseLabels := h.caseLabels
  declaring := h.still_declaring

/-- The walk keeps a token that neither opens nor closes a bracket: its frames agree with the levels if the innermost does. -/
theorem Verbatim.keep {e e₁ : Eraser} {n : Nesting} (h : Verbatim e n) {t : Token} {ts : List Token}
    (henter : n.enter t = some ⟨⟨n.inner.bracket, t :: n.inner.direct⟩, n.outer⟩)
    (hpassed : e₁.passed = e.passed) (hkept : e₁.kept = e.kept) (houter : e₁.outer = e.outer)
    (hahead : e₁.classAhead = e.classAhead) (hspec : e₁.specifiers = (reference? t).toList ++ e.specifiers)
    (hinner : Mirrors e₁.frame ⟨n.inner.bracket, t :: n.inner.direct⟩) :
    Verbatim (Eraser.keep e₁ t ts).1 ⟨⟨n.inner.bracket, t :: n.inner.direct⟩, n.outer⟩ where
  kept := by
    show t :: e₁.kept = t :: e₁.passed
    rw [hkept, hpassed, h.kept]
  levels := by
    show nesting (t :: e₁.passed) = _
    rw [nesting, hpassed, h.levels]
    exact henter
  inner := hinner
  outer := by
    show List.Forall₂ Mirrors e₁.outer _
    rw [houter]
    exact h.outer
  classAhead := hahead.trans h.classAhead
  specifiers := by
    show e₁.specifiers = (t :: e₁.passed).filterMap reference?
    rw [hspec, hpassed, h.specifiers]
    cases hr : reference? t with
    | none => rw [List.filterMap_cons_none hr]; rfl
    | some r => rw [List.filterMap_cons_some hr]; rfl

/-! ## Words -/

/-! ### Behind an opening bracket -/

theorem nesting_of_append {xs ys : List Token} {n : Nesting} (h : nesting (xs ++ ys) = some n) : ∃ m, nesting ys = some m := by
  induction xs generalizing n with
  | nil => exact ⟨n, h⟩
  | cons x xs ih =>
    obtain ⟨m, hm, _⟩ := Option.bind_eq_some_iff.mp h
    exact ih hm

/-- Right behind a round bracket that opens, the innermost level is this bracket, and no question mark waits in it. -/
theorem level_of_opened {before ps : List Token} {p : Token} {n : Nesting} (hn : nesting before = some n)
    (hshape : ∀ b ∈ before, b.Shaped) (hp : significant before = p :: ps) (htext : p.text = "(") :
    n.inner.bracket = some .round ∧ unanswered n.inner.direct = 0 := by
  obtain ⟨blanks, heq, hblank⟩ := eq_trivia_append_significant before
  rw [hp] at heq
  obtain ⟨n₀, hn₀⟩ := nesting_of_append (heq ▸ hn)
  obtain ⟨m, hm, hbracket, hcount⟩ :=
    nesting_append_of_trivia hn₀ (fun b hb => hshape b (heq ▸ List.mem_append_left _ hb)) hblank
  rw [← heq, hn] at hm
  injection hm with hm
  subst hm
  obtain ⟨k, _, hk⟩ := Option.bind_eq_some_iff.mp hn₀
  rw [Nesting.enter, htext] at hk
  injection hk with hk
  subst hk
  exact ⟨hbracket, hcount⟩

/-- A colon right behind the first word of a round bracket is not left alone. -/
theorem not_colon_after_first {before ts : List Token} {t : Token} {n : Nesting} (hn : nesting before = some n)
    (hbefore : ∀ b ∈ before, b.Shaped) (ht : t.Shaped) (hts : ∀ b ∈ ts, b.Shaped) (hid : t.kind = .identifier)
    (hplain : PlainFrom (t :: before) ts) (hopen : headText (significant before) = some "(") :
    headIn (significant ts) [":"] = false := by
  cases hnext : significant ts with
  | nil => rfl
  | cons u us =>
    rw [headIn, Bool.eq_false_iff, Ne, List.contains_iff_mem, List.mem_singleton]
    intro hcolon
    obtain ⟨blanks, hblanks, hat⟩ := hplain.next hnext
    obtain ⟨p, ps, hp, htext⟩ : ∃ p ps, significant before = p :: ps ∧ p.text = "(" := by
      cases hs : significant before with
      | nil => rw [hs] at hopen; nomatch hopen
      | cons p ps => rw [hs] at hopen; exact ⟨p, ps, rfl, Option.some.inj hopen⟩
    obtain ⟨hbracket, hcount⟩ := level_of_opened hn hbefore hp htext
    have hother : beginsOther t.text.toList = true := beginsOther_of_shape ht (by rw [hid]; nofun)
    have hbehind : nesting (t :: before) = some ⟨⟨n.inner.bracket, t :: n.inner.direct⟩, n.outer⟩ := by
      rw [nesting, hn]
      exact n.enter_of_beginsOther hother
    obtain ⟨m, hm, hbracket', hcount'⟩ :=
      nesting_append_of_trivia hbehind (fun b hb => hts b (hblanks b hb).1) fun b hb => (hblanks b hb).2
    rcases hat.colon hcolon m hm with hpos | ⟨hcurly, _⟩
    · rw [hcount', unanswered_cons_of_beginsOther hother, hcount] at hpos
      exact absurd hpos (Nat.lt_irrefl 0)
    · rw [hbracket', hbracket] at hcurly
      nomatch hcurly

/-! ### The step at a word -/

/-- A word that is left alone is kept, and begins a declaration of variables at most. -/
theorem onIdentifier_of_plain {e : Eraser} {n : Nesting} {t : Token} {ts : List Token} (h : Verbatim e n)
    (hpassed : ∀ b ∈ e.passed, b.Shaped) (ht : t.Shaped) (hts : ∀ b ∈ ts, b.Shaped) (hid : t.kind = .identifier)
    (hplain : PlainFrom e.passed (t :: ts)) :
    ∃ d, onIdentifier e t ts = .ok (keep { e with frame := { e.frame with declaring := d } } t ts) ∧
      (d = true → e.frame.declaring = true ∨ t.text ∈ declarationWords) := by
  have hprevious : e.previousText = headText (significant e.passed) := by rw [previousText, keptMeaning, h.kept]
  unfold onIdentifier
  split
  · exact ⟨e.frame.declaring, rfl, Or.inl⟩
  · rename_i hpoint
    have hword : t.text ∉ typeWords := by
      intro hmem
      have hin := hplain.1.word hmem
      apply hpoint
      rw [hprevious]
      cases hs : significant e.passed with
      | nil => rw [hs] at hin; cases hin
      | cons p ps =>
        rw [hs, headIn, List.contains_iff_mem] at hin
        rcases List.mem_cons.mp hin with hp | hp
        · exact Bool.or_eq_true _ _ |>.mpr (Or.inl (decide_eq_true (congrArg some hp)))
        · exact Bool.or_eq_true _ _ |>.mpr (Or.inr (decide_eq_true (congrArg some (List.mem_singleton.mp hp))))
    have hreceiver : (t.text = "this" && e.frame.isRound && e.previousText = some "(" && headIn (significant ts) [":"]) = false := by
      by_cases hopen : e.previousText = some "("
      · rw [not_colon_after_first h.levels hpassed ht hts hid hplain.2 (hprevious ▸ hopen), Bool.and_false]
      · rw [decide_eq_false hopen, Bool.and_false, Bool.false_and]
    have henum : t.text = "const" → headIn (significant ts) ["enum"] = false := by
      intro hconst
      cases hnext : significant ts with
      | nil => rfl
      | cons u us =>
        rw [headIn, Bool.eq_false_iff, Ne, List.contains_iff_mem, List.mem_singleton]
        intro hu
        -- the word before `enum` is `const`, no point
        obtain ⟨blanks, hblanks, hat⟩ := hplain.2.next hnext
        have hin := hat.word (hu ▸ by decide)
        have hsignificant : significant (t :: e.passed) = t :: e.passed :=
          significant_cons_of_not (by rw [Token.isTrivia, hid]; rfl) _
        rw [significant_append_of_trivia (fun b hb => (hblanks b hb).2), hsignificant, headIn, hconst] at hin
        cases hin
    rw [if_neg (by rw [hreceiver]; decide), onWord_eq_keep ts hword, noteWord_eq hword,
      onStatement_eq_none ts (fun hmem => hword (mem_typeWords_of_mem_statementWords hmem)) henum]
    refine ⟨e.frame.declaring || declarationWords.contains t.text, ?_, ?_⟩
    · split <;> rfl
    · intro hd
      rcases Bool.or_eq_true _ _ |>.mp hd with hd | hd
      · exact Or.inl hd
      · exact Or.inr (List.contains_iff_mem.mp hd)

/-! ## Marks -/

/-- Without a closing angle bracket there is no list of type arguments. -/
theorem closeAngle_eq_none {ts : List Token} (h : ∀ t ∈ ts, t.text ∉ [">", ">>", ">>>"]) {depth : Int} (hdepth : 0 ≤ depth)
    (opened : List Bracket) : closeAngle depth opened ts = none := by
  induction ts generalizing depth opened with
  | nil => rfl
  | cons t ts ih =>
    have hmap : ∀ {d : Int} (_ : 0 ≤ d) (bs : List Bracket),
        (closeAngle d bs ts).map (·.widen (List.suffix_cons t ts)) = none := by
      intro d hd bs
      rw [ih (fun u hu => h u (List.mem_cons_of_mem _ hu)) hd bs]
      rfl
    have ht := h t List.mem_cons_self
    simp only [List.mem_cons, List.not_mem_nil, or_false, not_or] at ht
    rw [closeAngle]
    split
    · rename_i step hstep
      rw [angleStep, if_neg ht.1, if_neg ht.2.1, if_neg ht.2.2] at hstep
      split at hstep
      · injection hstep with hstep
        rw [if_neg (by omega)]
        exact hmap (by omega) opened
      · nomatch hstep
    · split
      · exact hmap hdepth _
      · split
        · split
          · split
            · exact hmap hdepth _
            · rfl
          · rfl
        · split
          · rfl
          · split
            · exact hmap hdepth _
            · rfl

section Marks

variable {e : Eraser} {n : Nesting} {t : Token} {ts : List Token}

theorem marksOptional_eq_false (h : Verbatim e n) (hnext : headIn (significant ts) [":", ",", ")", "="] = false) :
    e.marksOptional (significant ts) = false := by
  rw [marksOptional, hnext, h.inner.classBody]
  simp only [Bool.false_and, ite_self, Bool.and_false]

theorem assertsNonNull_eq_false (h : Verbatim e n)
    (hbang : e.passed.head?.all (fun p => p.isTrivia || !endsExpression p) = true) : e.assertsNonNull = false := by
  rw [assertsNonNull, expressionEnded_eq, keptMeaning, h.kept]
  cases hp : e.passed with
  | nil => rfl
  | cons p ps =>
    rw [hp, List.head?_cons, Option.all_some] at hbang
    cases htrivia : p.isTrivia with
    | true => simp only [htrivia, Bool.not_true, Bool.false_and]
    | false =>
      rw [htrivia, Bool.false_or, Bool.not_eq_true'] at hbang
      simp only [significant_cons_of_not htrivia, List.head?_cons, Option.any_some, hbang, Bool.and_false]

/-- A colon of a condition or of an object has no type behind it. -/
theorem annotates_eq_false (h : Verbatim e n) (hshape : ∀ b ∈ e.passed, b.Shaped)
    (hcolon : 0 < unanswered n.inner.direct ∨ followsKey e.passed n.inner) : e.annotates = false := by
  unfold annotates
  rcases hcolon with hpos | ⟨hcurly, hdeclares, k, hk, hkey⟩
  · have hconditions : e.frame.conditions ≠ 0 := by
      rw [h.inner.conditions]
      omega
    rw [decide_eq_false hconditions, Bool.false_and, Bool.false_and]
  · have hround : e.frame.isRound = false := by
      rw [Frame.isRound, h.inner.bracket, hcurly]
      rfl
    have hdeclaring : e.frame.declaring = false := by
      rw [Bool.eq_false_iff]
      intro hd
      obtain ⟨d, hmem, htext⟩ := h.inner.declaring hd
      exact hdeclares d hmem htext
    rw [keptMeaning, h.kept]
    cases hs : significant e.passed with
    | nil => simp only [Bool.and_false]
    | cons p ps =>
      rw [hs] at hkey
      injection hkey with hkey
      by_cases hid : p.kind = .identifier
      · simp only [hid, hround, hdeclaring, h.inner.classBody, if_true, Bool.false_and, Bool.or_false, Bool.and_false]
      · -- a string or a number is no closing bracket
        have hmem : p ∈ e.passed := (significant_suffix e.passed).mem (hs ▸ List.mem_cons_self)
        have hother : beginsOther p.text.toList = true := by
          refine beginsOther_of_shape (hshape p hmem) fun hp => ?_
          have hkind : p.kind ∈ [TokenKind.identifier, .string, .number] := by
            rw [← hkey] at hk
            exact hk
          rw [hp] at hkind
          exact absurd hkind (by decide)
        have hclosers : ∀ m ∈ [")", "\x7d", "]"], p.text ≠ m := by
          intro m hm
          exact ne_of_beginsOther hother ((by decide : ∀ m ∈ [")", "\x7d", "]"], beginsOther m.toList = false) m hm)
        simp only [hid, if_false, decide_eq_false (hclosers ")" (by decide)), decide_eq_false (hclosers "\x7d" (by decide)),
          decide_eq_false (hclosers "]" (by decide)), Bool.false_and, Bool.or_false]
        cases e.closed <;> exact Bool.and_false _

/-- The step at the next token keeps it, or refuses it as a bracket that closes another one than the innermost. -/
def LeftAlone (e : Eraser) (n : Nesting) (t : Token) (ts : List Token) (r : Except Refusal (Next (t :: ts))) : Prop :=
  (∃ e₁ m, r = .ok (keep e₁ t ts) ∧ e₁.passed = e.passed ∧ Verbatim (keep e₁ t ts).1 m) ∨
    (n.enter t = none ∧ ∃ p, r = .error ⟨.unmatchedBracket t.text, p⟩)

/-- A mark that is no bracket is kept, where the innermost frame goes on agreeing with its level. -/
theorem leftAlone_keep (h : Verbatim e n) (hopen : Bracket.opened? t.text = none) (hclose : Bracket.closed? t.text = none)
    (hcomment : reference? t = none) (f : Frame) (hf : Mirrors f ⟨n.inner.bracket, t :: n.inner.direct⟩) :
    LeftAlone e n t ts (.ok (keep { e with frame := f } t ts)) := by
  have henter : n.enter t = some ⟨⟨n.inner.bracket, t :: n.inner.direct⟩, n.outer⟩ := by rw [Nesting.enter, hopen, hclose]
  exact Or.inl ⟨{ e with frame := f }, _, rfl, rfl, h.keep henter rfl rfl rfl rfl (by rw [hcomment]; rfl) hf⟩

/-- The walk keeps a bracket that opens, and one that closes the innermost. -/
theorem leftAlone_bracket (h : Verbatim e n) (hcomment : reference? t = none) {b : Bracket} :
    (Bracket.opened? t.text = some b → LeftAlone e n t ts (.ok (onOpening e b t ts))) ∧
      (Bracket.opened? t.text = none → Bracket.closed? t.text = some b → LeftAlone e n t ts (onClosing e b t ts)) := by
  have hspecifiers : e.specifiers = (t :: e.passed).filterMap reference? := by
    rw [List.filterMap_cons_none hcomment, h.specifiers]
  constructor
  · intro hopen
    have henter : n.enter t = some ⟨⟨some b, []⟩, n.inner :: n.outer⟩ := by rw [Nesting.enter, hopen]
    refine Or.inl ⟨_, ⟨⟨some b, []⟩, n.inner :: n.outer⟩, rfl, rfl, ?_⟩
    refine ⟨congrArg (t :: ·) h.kept, ?_, ⟨rfl, ?_, rfl, rfl, nofun⟩, .cons h.inner h.outer, ?_, hspecifiers⟩
    · show nesting (t :: e.passed) = _
      rw [nesting, h.levels]
      exact henter
    · show (b == .curly && e.classAhead) = false
      rw [h.classAhead, Bool.and_false]
    · show (e.classAhead && _) = false
      rw [h.classAhead, Bool.false_and]
  · intro hopen hclose
    have houter := h.outer
    unfold onClosing
    split
    · rename_i f outer he
      rw [he] at houter
      cases hn : n.outer with
      | nil => rw [hn] at houter; nomatch houter
      | cons l levels =>
        rw [hn] at houter
        obtain ⟨hf, htail⟩ := List.forall₂_cons.mp houter
        have henter : n.enter t = if n.inner.bracket = some b then some ⟨l, levels⟩ else none := by
          rw [Nesting.enter, hopen, hclose, hn]
        split
        · rename_i hb
          rw [h.inner.bracket] at hb
          rw [if_pos hb] at henter
          refine Or.inl ⟨_, ⟨l, levels⟩, rfl, rfl, congrArg (t :: ·) h.kept, ?_, hf, htail, h.classAhead, hspecifiers⟩
          show nesting (t :: e.passed) = _
          rw [nesting, h.levels]
          exact henter
        · rename_i hb
          rw [h.inner.bracket] at hb
          rw [if_neg hb] at henter
          exact Or.inr ⟨henter, _, rfl⟩
    · rename_i he
      rw [he] at houter
      cases hn : n.outer with
      | nil => exact Or.inr ⟨by rw [Nesting.enter, hopen, hclose, hn], _, rfl⟩
      | cons l levels => rw [hn] at houter; nomatch houter

/-- A mark that is left alone is kept, unless it closes another bracket than the innermost. -/
theorem onMark_of_plain (h : Verbatim e n) (hpassed : ∀ b ∈ e.passed, b.Shaped) (hkind : t.kind = .punctuation)
    (hplain : PlainAt e.passed t ts)
    (hangle : (∀ u ∈ t :: ts, u.text ≠ "<") ∨ ∀ u ∈ t :: ts, u.text ∉ [">", ">>", ">>>"]) :
    LeftAlone e n t ts (onMark e t ts) := by
  have hcomment : reference? t = none := if_neg (by rw [hkind]; nofun)
  unfold onMark
  by_cases hquestion : t.text = "?"
  · rw [if_pos hquestion, marksOptional_eq_false h (hplain.question hquestion), if_neg (by nofun)]
    refine leftAlone_keep h (by rw [hquestion]; decide) (by rw [hquestion]; decide) hcomment _ ?_
    refine ⟨h.inner.bracket, h.inner.classBody, ?_, h.inner.caseLabels, h.inner.still_declaring⟩
    show e.frame.conditions + 1 = _
    rw [unanswered, if_pos hquestion, h.inner.conditions]
  rw [if_neg hquestion]
  rw [if_neg (c := (t.text = "!" && e.assertsNonNull) = true)]
  swap
  · rw [Bool.and_eq_true, decide_eq_true_eq]
    rintro ⟨hbang, hasserts⟩
    rw [assertsNonNull_eq_false h (hplain.bang hbang)] at hasserts
    nomatch hasserts
  by_cases hcolon : t.text = ":"
  · rw [if_pos hcolon, annotates_eq_false h hpassed (hplain.colon hcolon n h.levels), if_neg (by nofun)]
    refine leftAlone_keep h (by rw [hcolon]; decide) (by rw [hcolon]; decide) hcomment _ ?_
    have hcount : unanswered (t :: n.inner.direct) = unanswered n.inner.direct - 1 := by
      rw [unanswered, if_neg hquestion, if_pos hcolon]
    have hf := h.inner.conditions
    have hlabels := h.inner.caseLabels
    split
    · refine ⟨h.inner.bracket, h.inner.classBody, ?_, hlabels, h.inner.still_declaring⟩
      rw [hcount, ← hf]
    · rename_i hzero
      refine ⟨h.inner.bracket, h.inner.classBody, ?_, ?_, h.inner.still_declaring⟩
      · rw [hcount, ← hf]
        show e.frame.conditions = e.frame.conditions - 1
        omega
      · show e.frame.caseLabels - 1 = 0
        omega
  rw [if_neg hcolon]
  have hpush : Mirrors e.frame ⟨n.inner.bracket, t :: n.inner.direct⟩ := h.inner.push hquestion hcolon
  by_cases hless : t.text = "<"
  · rw [if_pos hless]
    have hmatch : matchAngle (t :: ts) = none := by
      rcases hangle with hno | hno
      · exact absurd hless (hno t List.mem_cons_self)
      · exact closeAngle_eq_none hno (Int.le_refl 0) []
    rw [hmatch]
    exact leftAlone_keep h (by rw [hless]; decide) (by rw [hless]; decide) hcomment e.frame hpush
  rw [if_neg hless]
  cases hopen : Bracket.opened? t.text with
  | some b => exact (leftAlone_bracket h hcomment).1 hopen
  | none =>
    cases hclose : Bracket.closed? t.text with
    | some b => exact (leftAlone_bracket h hcomment).2 hopen hclose
    | none =>
      by_cases hsemicolon : t.text = ";"
      · simp only [hsemicolon, if_true]
        exact leftAlone_keep h hopen hclose hcomment _
          ⟨hpush.bracket, hpush.classBody, hpush.conditions, hpush.caseLabels, nofun⟩
      · simp only [hsemicolon, if_false]
        exact leftAlone_keep h hopen hclose hcomment e.frame hpush

/-! ## Steps and walks -/

/-- Every step leaves the source as it is, or refuses a bracket. -/
theorem step_of_plain (h : Verbatim e n) (hpassed : ∀ b ∈ e.passed, b.Shaped) (hshape : ∀ b ∈ t :: ts, b.Shaped)
    (hplain : PlainFrom e.passed (t :: ts))
    (hangle : (∀ u ∈ t :: ts, u.text ≠ "<") ∨ ∀ u ∈ t :: ts, u.text ∉ [">", ">>", ">>>"]) :
    LeftAlone e n t ts (step e t ts) := by
  have ht := hshape t List.mem_cons_self
  have hpush : beginsOther t.text.toList = true → ∀ {f : Frame}, Mirrors f n.inner →
      Mirrors f ⟨n.inner.bracket, t :: n.inner.direct⟩ :=
    fun hother _ hf => hf.push (ne_of_beginsOther hother (by decide)) (ne_of_beginsOther hother (by decide))
  unfold step
  by_cases htrivia : t.isTrivia = true
  · rw [if_pos htrivia]
    have hother := ht.beginsOther_of_trivia htrivia
    rw [onTrivia_eq]
    exact Or.inl ⟨_, _, rfl, rfl, h.keep (n.enter_of_beginsOther hother) rfl rfl rfl rfl rfl (hpush hother h.inner)⟩
  rw [if_neg htrivia]
  have hcomment : reference? t = none := by
    refine if_neg fun hk => htrivia ?_
    rw [Token.isTrivia, hk]
    rfl
  by_cases hid : t.kind = .identifier
  · rw [if_pos hid]
    have hother : beginsOther t.text.toList = true := beginsOther_of_shape ht (by rw [hid]; decide)
    obtain ⟨d, hstep, hd⟩ :=
      onIdentifier_of_plain h hpassed ht (fun b hb => hshape b (List.mem_cons_of_mem _ hb)) hid hplain
    rw [hstep]
    have hf := hpush hother h.inner
    refine Or.inl ⟨_, _, rfl, rfl, h.keep (n.enter_of_beginsOther hother) rfl rfl rfl rfl (by rw [hcomment]; rfl) ?_⟩
    refine ⟨hf.bracket, hf.classBody, hf.conditions, hf.caseLabels, fun hdeclares => ?_⟩
    rcases hd hdeclares with hd | hd
    · exact hf.declaring hd
    · exact ⟨t, List.mem_cons_self, hd⟩
  rw [if_neg hid]
  by_cases hmark : t.kind = .punctuation
  · rw [if_pos hmark]
    unfold onPunctuation
    rw [if_neg]
    · exact onMark_of_plain h hpassed hmark hplain.1 hangle
    · rw [Bool.and_eq_true, Bool.or_eq_true, decide_eq_true_eq, decide_eq_true_eq, Bool.not_eq_true']
      rintro ⟨hslash, hended⟩
      have hends := hplain.1.slash (by rcases hslash with hs | hs <;> rw [hs] <;> decide)
      rw [expressionEnded_eq, keptMeaning, h.kept, hends] at hended
      cases hended
  · rw [if_neg hmark]
    have hother := beginsOther_of_shape ht hmark
    exact Or.inl ⟨e, _, rfl, rfl,
      h.keep (n.enter_of_beginsOther hother) rfl rfl rfl rfl (by rw [hcomment]; rfl) (hpush hother h.inner)⟩

end Marks

/-- The walk keeps all that is left if its brackets are nested, and refuses a bracket otherwise. -/
theorem walk_of_plain {e : Eraser} {n : Nesting} {ts : List Token} (hrest : e.rest = ts) (h : Verbatim e n)
    (hpassed : ∀ b ∈ e.passed, b.Shaped) (hshape : ∀ b ∈ ts, b.Shaped) (hplain : PlainFrom e.passed ts)
    (hangle : (∀ u ∈ ts, u.text ≠ "<") ∨ ∀ u ∈ ts, u.text ∉ [">", ">>", ">>>"]) :
    (∀ m, nesting (ts.reverse ++ e.passed) = some m → m.inner.bracket = none →
      ∃ e', walk e = .ok e' ∧ e'.kept = ts.reverse ++ e.passed ∧
        e'.specifiers = (ts.reverse ++ e.passed).filterMap reference?) ∧
    ((¬∃ m, nesting (ts.reverse ++ e.passed) = some m ∧ m.inner.bracket = none) →
      ∃ b p, walk e = .error ⟨.unmatchedBracket b, p⟩) := by
  induction ts generalizing e n with
  | nil =>
    rw [walk_of_nil hrest, finish, h.inner.bracket]
    refine ⟨fun m hm hnone => ?_, fun hopen => ?_⟩
    · rw [List.reverse_nil, List.nil_append, h.levels] at hm
      injection hm with hm
      rw [hm, hnone]
      exact ⟨e, rfl, h.kept, h.specifiers⟩
    · cases hb : n.inner.bracket with
      | none => exact absurd ⟨n, h.levels, hb⟩ hopen
      | some b => exact ⟨b.opener, _, rfl⟩
  | cons t ts ih =>
    rw [List.reverse_cons, List.append_assoc, List.singleton_append]
    rcases step_of_plain h hpassed hshape hplain hangle with ⟨e₁, m, hstep, hp, hm⟩ | ⟨henter, p, hstep⟩
    · rw [walk_of_ok hrest hstep]
      have hpass : (keep e₁ t ts).1.passed = t :: e.passed := congrArg (t :: ·) hp
      have hnext := ih (e := (keep e₁ t ts).1) rfl hm
        (by
          rw [hpass]
          intro b hb
          rcases List.mem_cons.mp hb with rfl | hb
          · exact hshape b List.mem_cons_self
          · exact hpassed b hb)
        (fun b hb => hshape b (List.mem_cons_of_mem _ hb)) (by rw [hpass]; exact hplain.2)
        (hangle.imp (fun h u hu => h u (List.mem_cons_of_mem _ hu)) fun h u hu => h u (List.mem_cons_of_mem _ hu))
      rw [hpass] at hnext
      exact hnext
    · rw [walk_of_error hrest hstep]
      have hlevels : nesting (t :: e.passed) = none := by
        rw [nesting, h.levels]
        exact henter
      refine ⟨fun m hm => ?_, fun _ => ⟨t.text, ?_⟩⟩
      · obtain ⟨k, hk⟩ := nesting_of_append hm
        rw [hlevels] at hk
        nomatch hk
      · unfold locate
        cases p with
        | none => exact ⟨_, rfl⟩
        | some p => exact ⟨_, rfl⟩

end Eraser

/-- A source of the fragment comes out character by character, with the modules that its reference comments name, if its brackets
are nested, and is refused for a bracket if they are not. -/
theorem erase_plain {content : String} {ts : List Token} (hlex : tokenize content.toList 0 .first = .ok ts) (hplain : Plain ts) :
    (Balanced ts → erase content = .ok ⟨content, ts.filterMap reference?⟩) ∧
      (¬Balanced ts → ∃ b p, erase content = .error ⟨.unmatchedBracket b, p⟩) := by
  have hfrom := lexFrom_of_tokenize hlex
  have hwalk := Eraser.walk_of_plain (e := Eraser.start ts) (n := ⟨⟨none, []⟩, []⟩) rfl
    ⟨rfl, rfl, ⟨rfl, rfl, rfl, rfl, nofun⟩, .nil, rfl, rfl⟩ nofun (shaped_of_lexFrom hfrom) hplain.each hplain.angles
  simp only [Eraser.start, List.append_nil] at hwalk
  constructor
  · rintro ⟨m, hm, hnone⟩
    obtain ⟨e, he, hkept, hspecifiers⟩ := hwalk.1 m hm hnone
    have hcode : e.output = content := by
      rw [← String.toList_inj, Eraser.toList_output, hkept, List.reverse_reverse, sourceText_lexFrom hfrom]
    rw [erase, hlex]
    simp only [Eraser.start, he, Except.map, hcode, hspecifiers, List.filterMap_reverse, List.reverse_reverse]
  · intro hopen
    obtain ⟨b, p, he⟩ := hwalk.2 hopen
    refine ⟨b, p, ?_⟩
    rw [erase, hlex]
    simp only [Eraser.start, he, Except.map]

theorem erase_plain_object :
    erase "x = \x7ba: b ? 1 : 2\x7d" = .ok ⟨"x = \x7ba: b ? 1 : 2\x7d", []⟩ := by
  obtain ⟨ts, hlex, hplain, hbalanced, hreferences⟩ : ∃ ts,
      tokenize "x = \x7ba: b ? 1 : 2\x7d".toList 0 .first = .ok ts ∧ Plain ts ∧ Balanced ts ∧ ts.filterMap reference? = [] := by
    refine ⟨[⟨.identifier, "x", 0, ⟨1, 1⟩⟩, ⟨.blank, " ", 1, ⟨1, 2⟩⟩, ⟨.punctuation, "=", 2, ⟨1, 3⟩⟩, ⟨.blank, " ", 3, ⟨1, 4⟩⟩,
      ⟨.punctuation, "\x7b", 4, ⟨1, 5⟩⟩, ⟨.identifier, "a", 5, ⟨1, 6⟩⟩, ⟨.punctuation, ":", 6, ⟨1, 7⟩⟩, ⟨.blank, " ", 7, ⟨1, 8⟩⟩,
      ⟨.identifier, "b", 8, ⟨1, 9⟩⟩, ⟨.blank, " ", 9, ⟨1, 10⟩⟩, ⟨.punctuation, "?", 10, ⟨1, 11⟩⟩, ⟨.blank, " ", 11, ⟨1, 12⟩⟩,
      ⟨.number, "1", 12, ⟨1, 13⟩⟩, ⟨.blank, " ", 13, ⟨1, 14⟩⟩, ⟨.punctuation, ":", 14, ⟨1, 15⟩⟩, ⟨.blank, " ", 15, ⟨1, 16⟩⟩,
      ⟨.number, "2", 16, ⟨1, 17⟩⟩, ⟨.punctuation, "\x7d", 17, ⟨1, 18⟩⟩], ?_, ⟨?_, ?_⟩, ⟨⟨⟨none, ?_⟩, []⟩, ?_, rfl⟩, ?_⟩
    · cbv
    · exact Or.inl (by decide)
    · decide
    · exact [⟨.blank, " ", 3, ⟨1, 4⟩⟩, ⟨.punctuation, "=", 2, ⟨1, 3⟩⟩, ⟨.blank, " ", 1, ⟨1, 2⟩⟩, ⟨.identifier, "x", 0, ⟨1, 1⟩⟩]
    · rfl
    · rfl
  have h := (erase_plain hlex hplain).1 hbalanced
  rw [hreferences] at h
  exact h

end ScriptLoader.Syntax
