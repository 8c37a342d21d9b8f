import ScriptLoader.Proofs.Core.SkipType
import ScriptLoader.Proofs.Eraser.Run
import ScriptLoader.Proofs.Eraser.Words

/-!
# Views of the walk

A `View` is what the eraser's steps through a core program depend on: what was kept, without blanks and comments, the brackets that are
open, and what is left of the source. `Goes v w` says that the walk gets from every state that looks like `v` to one that looks like
`w`.
-/

namespace ScriptLoader.Syntax

open Eraser

/-! ## Views -/

/-- What is known of the walk at one place. -/
structure View where
  /-- What was kept, the latest first. -/
  said : List Lexeme
  frame : Frame
  outer : List Frame
  /-- A class has begun and its body has not. -/
  ahead : Bool
  rest : List Token
  /-- Nothing was kept since the last of `said`. -/
  tight : Bool
  /-- The tokens of the whole source. -/
  source : List Token

namespace View

/-- The state looks like the view. What was kept are tokens of the source in their order, and a round bracket that was kept last is the
bracket that was closed last. -/
structure At (v : View) (e : Eraser) : Prop where
  said : lexemes e.kept = v.said
  shaped : ∀ t ∈ e.kept, t.Shaped
  frame : e.frame = v.frame
  outer : e.outer = v.outer
  ahead : e.classAhead = v.ahead
  rest : e.rest = v.rest
  closed : v.said.head? = some (mark ")") → ∃ f, e.closed = some f ∧ f.isRound = true
  tight : v.tight = true → ∃ t ts, e.kept = t :: ts ∧ t.isTrivia = false
  source : (e.kept.reverse ++ e.rest).Sublist v.source

/-- The view behind some symbols, of which the code was kept. -/
def after (v : View) (ss : List Sym) (rest : List Token) : View :=
  { v with said := (Syntax.said ss).reverse ++ v.said, rest, tight := false }

/-- The view of a place where the last token kept is code. -/
def tightly (v : View) : View := { v with tight := true }

/-- The view with another innermost bracket. -/
def inFrame (v : View) (f : Frame) : View := { v with frame := f }

/-- The view where a declaration of variables has begun or not. -/
def declaring (v : View) (declaring : Bool) : View := v.inFrame { v.frame with declaring }

/-- The view where one more question mark waits for its colon. -/
def waiting (v : View) : View := v.inFrame { v.frame with conditions := v.frame.conditions + 1 }

/-- The view with a class begun or not. -/
def expecting (v : View) (ahead : Bool) : View := { v with ahead }

/-- The view before these tokens, behind blanks and comments. -/
def before (v : View) (ts : List Token) : View := { v with rest := ts, tight := false }

theorem after_after (v : View) (ss us : List Sym) (mid rest : List Token) : (v.after ss mid).after us rest = v.after (ss ++ us) rest := by
  simp only [after, said_append, List.reverse_append, List.append_assoc]

/-- A class begins and its body ends. -/
theorem expecting_after {v : View} (h : v.ahead = false) (ss : List Sym) (rest : List Token) :
    ((v.expecting true).after ss rest).expecting false = v.after ss rest := by
  rw [after, after, expecting, ← h]
  rfl

end View

/-- The walk gets from every state that looks like the one view to a state that looks like the other. -/
def Goes (v w : View) : Prop := ∀ e, v.At e → ∃ e', Reaches e e' ∧ w.At e'

namespace Goes

variable {v w x : View}

theorem refl (v : View) : Goes v v := fun e he => ⟨e, .refl e, he⟩

theorem trans (h : Goes v w) (h' : Goes w x) : Goes v x := by
  intro e he
  obtain ⟨e₁, hrun₁, he₁⟩ := h e he
  obtain ⟨e₂, hrun₂, he₂⟩ := h' e₁ he₁
  exact ⟨e₂, hrun₁.trans hrun₂, he₂⟩

/-- It need not be known that the last token kept is code. -/
theorem loose (v : View) : Goes v { v with tight := false } := fun e he =>
  ⟨e, .refl e, ⟨he.said, he.shaped, he.frame, he.outer, he.ahead, he.rest, he.closed, nofun, he.source⟩⟩

theorem loosen {ss : List Sym} {rest : List Token} (h : Goes v (w.after ss rest).tightly) : Goes v (w.after ss rest) :=
  h.trans (loose (w.after ss rest).tightly)

/-- The walk goes on behind some symbols. -/
theorem append {ss us : List Sym} {mid rest : List Token} (h : Goes v (v.after ss mid))
    (h' : Goes (v.after ss mid) ((v.after ss mid).after us rest)) : Goes v (v.after (ss ++ us) rest) := by
  rw [View.after_after] at h'
  exact h.trans h'

theorem appendTightly {ss us : List Sym} {mid rest : List Token} (h : Goes v (v.after ss mid))
    (h' : Goes (v.after ss mid) ((v.after ss mid).after us rest).tightly) : Goes v (v.after (ss ++ us) rest).tightly := by
  rw [View.after_after] at h'
  exact h.trans h'

/-- One step at the first token. -/
theorem step {t : Token} {ts : List Token} (hrest : v.rest = t :: ts)
    (h : ∀ e, v.At e → ∃ e' : Next (t :: ts), Eraser.step e t ts = .ok e' ∧ w.At e'.1) : Goes v w := by
  intro e he
  obtain ⟨e', hstep, he'⟩ := h e he
  exact ⟨e'.1, .single (.intro (he.rest.trans hrest) hstep), he'⟩

end Goes

/-- Without symbols there is nothing to do. -/
theorem goes_nil {v : View} {rest : List Token} (hw : Written [] v.rest rest) : Goes v (v.after [] rest) := by
  obtain rfl := Written.nil_iff.mp hw
  exact .loose v

/-! ## What the eraser knows of a view -/

/-- The lexeme may end an expression. -/
def mayEnd (m : Lexeme) : Bool := endsExpression ⟨m.1, m.2, 0, .first⟩

/-- What was kept, the latest first, may be a whole expression. -/
def ended (said : List Lexeme) : Bool := said.head?.any mayEnd

/-- The view shows the end of a parameter, a variable, a field or the parameters of a function, behind which a colon has a type. -/
def View.AwaitsType (v : View) : Prop :=
  v.frame.conditions = 0 ∧ v.frame.caseLabels = 0 ∧
    (v.said.head? = some (mark ")") ∨
      ∃ x, v.said.head? = some (word x) ∧
        (v.frame.classBody = true ∨ (v.frame.isRound = true ∧ beforeParameter (v.said.tail.head?.map (·.2)) = true) ∨
          (v.frame.declaring = true ∧
            (v.said.tail.head?.map (·.2)).any (fun s => declarationWords.contains s || s = ",") = true)))

namespace View.At

variable {v : View} {e : Eraser}

theorem previousText (h : v.At e) : e.previousText = v.said.head?.map (·.2) := by
  rw [Eraser.previousText, keptMeaning, headText_significant, h.said]

theorem previousText₂ (h : v.At e) : e.previousText₂ = v.said.tail.head?.map (·.2) := by
  rw [Eraser.previousText₂, headText_significant, keptMeaning, lexemes_tail_significant, h.said]

theorem headIsName (h : v.At e) : headIsName e.keptMeaning = v.said.head?.any fun m => m.1 == .identifier := by
  rw [keptMeaning, headIsName_significant, h.said]

theorem expressionEnded (h : v.At e) : e.expressionEnded = ended v.said := by
  rw [expressionEnded_eq, ended, ← h.said, keptMeaning]
  rcases significant_cases e.kept with ⟨hs, hl⟩ | ⟨t, ts, hs, _, hl⟩ <;> rw [hs, hl] <;> rfl

/-- What was kept last is a token that the lexer made. -/
theorem keptMeaning (h : v.At e) {m : Lexeme} (hm : v.said.head? = some m) :
    ∃ t ts, e.keptMeaning = t :: ts ∧ t.Shaped ∧ t.lexeme = m := by
  rw [← h.said] at hm
  obtain ⟨t, ts, hs, _, ht⟩ := exists_of_head?_lexemes hm
  have hmem : t ∈ Syntax.significant e.kept := hs ▸ List.mem_cons_self
  exact ⟨t, ts, hs, h.shaped t ((significant_suffix e.kept).subset hmem), ht⟩

/-- Behind what is no mark the last text kept is no mark either. -/
theorem previousText_ne (h : v.At e) {m : Lexeme} (hm : v.said.head? = some m) (hkind : m.1 ≠ .punctuation) {s : String}
    (hs : beginsOther s.toList = false) : e.previousText ≠ some s := by
  obtain ⟨t, ts, hkept, hshape, rfl⟩ := h.keptMeaning hm
  rw [Eraser.previousText, hkept]
  intro heq
  exact text_ne_of_kind hshape hkind hs (Option.some.inj heq)

theorem previousText_ne_of_mem (h : v.At e) {texts : List String} (htexts : ∀ m, v.said.head? = some m → m.2 ∈ texts) {s : String}
    (hs : s ∉ texts) : e.previousText ≠ some s := by
  rw [h.previousText]
  intro heq
  obtain ⟨m, hm, rfl⟩ := Option.map_eq_some_iff.mp heq
  exact hs (htexts m hm)

/-- The lexeme of an expression that has ended is no point. -/
theorem no_point (h : v.At e) (hended : ended v.said = true) :
    e.previousText ≠ some "." ∧ e.previousText ≠ some "?." := by
  rw [ended] at hended
  cases hsaid : v.said.head? with
  | none =>
    rw [hsaid] at hended
    nomatch hended
  | some m =>
    rw [hsaid] at hended
    obtain ⟨kind, text⟩ := m
    by_cases hkind : kind = .punctuation
    · subst hkind
      have hclose : text ∈ [")", "]", "\x7d"] := List.contains_iff_mem.mp hended
      have hpoint : text ≠ "." := by rintro rfl; revert hclose; decide
      have hpoint' : text ≠ "?." := by rintro rfl; revert hclose; decide
      rw [h.previousText, hsaid]
      exact ⟨fun heq => hpoint (Option.some.inj heq), fun heq => hpoint' (Option.some.inj heq)⟩
    · exact ⟨h.previousText_ne hsaid hkind (by decide), h.previousText_ne hsaid hkind (by decide)⟩

/-- A colon behind a word or a literal has a type behind it only in round brackets, in a declaration of variables or in a class. -/
theorem annotates_eq_false (h : v.At e) {m : Lexeme} (hm : v.said.head? = some m) (hkind : m.1 ≠ .punctuation)
    (hround : v.frame.isRound = false) (hdeclaring : v.frame.declaring = false) (hbody : v.frame.classBody = false) :
    e.annotates = false := by
  obtain ⟨p, ps, hkept, hshape, rfl⟩ := h.keptMeaning hm
  have hother : ∀ {s : String}, beginsOther s.toList = false → p.text ≠ s := text_ne_of_kind hshape hkind
  rw [annotates, h.frame, hround, hdeclaring, hbody, hkept]
  simp only [hother (s := ")") (by decide), hother (s := "\x7d") (by decide), hother (s := "]") (by decide), decide_false,
    Bool.false_and, Bool.or_false]
  cases e.closed <;> simp only [ite_self, Bool.and_false]

/-- A colon has a type behind it where the view shows a parameter, a variable, a field or the parameters of a function. -/
theorem annotates_eq_true (h : v.At e) (hplace : v.AwaitsType) : e.annotates = true := by
  obtain ⟨hconditions, hlabels, hplace⟩ := hplace
  rw [annotates, h.frame, hconditions, hlabels]
  rcases hplace with hclose | ⟨x, hx, hplace⟩
  · obtain ⟨p, ps, hkept, _, hp⟩ := h.keptMeaning hclose
    obtain ⟨f, hclosed, hround⟩ := h.closed hclose
    obtain ⟨hkind, htext⟩ := lexeme_eq_mark hp
    rw [hkept, hclosed]
    simp only [hkind, htext, hround, reduceCtorEq, if_false, decide_true, Bool.true_and, Bool.true_or]
  · obtain ⟨p, ps, hkept, _, hp⟩ := h.keptMeaning hx
    rw [hkept, h.previousText₂]
    simp only [(lexeme_eq_word hp).1, if_true, decide_true, Bool.true_and, Bool.or_eq_true, Bool.and_eq_true]
    rcases hplace with hbody | ⟨hround, hbefore⟩ | ⟨hdeclaring, hbefore⟩
    · exact Or.inr hbody
    · exact Or.inl (Or.inl ⟨hround, hbefore⟩)
    · exact Or.inl (Or.inr ⟨hdeclaring, hbefore⟩)

/-- The tokens kept and those to come are the same when the next token is kept. -/
theorem source_of_keep {t : Token} {ts : List Token} (h : (v.before (t :: ts)).At e) :
    ((t :: e.kept).reverse ++ ts).Sublist v.source := by
  have hsource := h.source
  rw [h.rest] at hsource
  rw [List.reverse_cons, List.append_assoc]
  exact hsource

/-- A token is kept; no round bracket that closes. -/
theorem keep {e₁ : Eraser} {t : Token} {ts : List Token} {m : Lexeme} {f : Frame} {ahead : Bool} (h : (v.before (t :: ts)).At e)
    (ht : t.isTrivia = false) (hshape : t.Shaped) (hs : t.lexeme = m) (hclose : m ≠ mark ")") (hkept : e₁.kept = e.kept)
    (hframe : e₁.frame = f) (houter : e₁.outer = e.outer) (hahead : e₁.classAhead = ahead) :
    View.At ⟨m :: v.said, f, v.outer, ahead, ts, true, v.source⟩ (Eraser.keep e₁ t ts).1 where
  said := by
    show lexemes (t :: e₁.kept) = _
    rw [lexemes_cons_of_not ht, hkept, h.said, hs]
    rfl
  shaped := List.forall_mem_cons.mpr ⟨hshape, hkept ▸ h.shaped⟩
  frame := hframe
  outer := houter.trans h.outer
  ahead := hahead
  rest := rfl
  closed hm := absurd (Option.some.inj hm) hclose
  tight _ := ⟨t, e₁.kept, rfl, ht⟩
  source := by
    show ((t :: e₁.kept).reverse ++ ts).Sublist v.source
    rw [hkept]
    exact h.source_of_keep

/-- The walk goes on without what it has skipped, and perhaps without trivia that were kept. -/
theorem skip {ts rest : List Token} (h : (v.before ts).At e) (e₁ : Eraser) (r : Tail ts) (hrest : r.tokens = rest)
    (said : List Lexeme) (hsaid : lexemes e₁.kept = said) (hkept : e₁.kept.Sublist e.kept) (hframe : e₁.frame = e.frame)
    (houter : e₁.outer = e.outer) (hahead : e₁.classAhead = e.classAhead) (hclosed : e₁.closed = e.closed)
    (hround : said.head? = some (mark ")") → v.said.head? = some (mark ")")) :
    View.At ⟨said, v.frame, v.outer, v.ahead, rest, false, v.source⟩ (skipTo e₁ r).1 where
  said := hsaid
  shaped t ht := h.shaped t (hkept.subset ht)
  frame := hframe.trans h.frame
  outer := houter.trans h.outer
  ahead := hahead.trans h.ahead
  rest := hrest
  closed hm := by
    show ∃ f, e₁.closed = some f ∧ _
    rw [hclosed]
    exact h.closed (hround hm)
  tight := nofun
  source := by
    have hsource := h.source
    rw [h.rest] at hsource
    exact (hkept.reverse.append r.suffix.sublist).trans hsource

end View.At

/-! ## Trivia -/

/-- Blanks and comments are kept. -/
theorem goes_trivia {v : View} {t : Token} {ts : List Token} (ht : t.isTrivia = true) (hshape : t.Shaped) (hrest : v.rest = t :: ts) :
    Goes v (v.before ts) := by
  refine Goes.step hrest fun e he => ⟨onTrivia e t ts, by rw [Eraser.step, if_pos ht], ?_⟩
  have hbefore : (v.before (t :: ts)).At e :=
    ⟨he.said, he.shaped, he.frame, he.outer, he.ahead, he.rest.trans hrest, he.closed, nofun, he.source⟩
  obtain ⟨notes, hnotes⟩ : ∃ notes, onTrivia e t ts = keep { e with specifiers := notes } t ts := by
    rw [onTrivia]
    split
    · split
      · exact ⟨_, rfl⟩
      · exact ⟨e.specifiers, rfl⟩
    · exact ⟨e.specifiers, rfl⟩
  rw [hnotes]
  exact {
    said := (lexemes_cons_of_trivia ht e.kept).trans he.said
    shaped := List.forall_mem_cons.mpr ⟨hshape, he.shaped⟩
    frame := he.frame
    outer := he.outer
    ahead := he.ahead
    rest := rfl
    closed := he.closed
    tight := nofun
    source := hbefore.source_of_keep }

theorem goes_blanks {v : View} {blanks ts : List Token} (hblanks : ∀ b ∈ blanks, b.isTrivia = true ∧ b.Shaped)
    (hrest : v.rest = blanks ++ ts) (htight : v.tight = false) : Goes v (v.before ts) := by
  induction blanks generalizing v with
  | nil =>
    have hv : v = v.before ts := by
      obtain ⟨said, frame, outer, ahead, rest, tight, source⟩ := v
      obtain rfl : rest = ts := hrest
      obtain rfl : tight = false := htight
      rfl
    rw [← hv]
    exact .refl v
  | cons b blanks ih =>
    obtain ⟨hb, hblanks⟩ := List.forall_mem_cons.mp hblanks
    exact (goes_trivia hb.1 hb.2 hrest).trans (ih (v := v.before (blanks ++ ts)) hblanks rfl rfl)

/-- The walk gets to the token of the first symbol, and what it does there is given. -/
theorem goes_to_symbol {v : View} {s : Sym} {ss : List Sym} {rest : List Token} (hw : Written (s :: ss) v.rest rest) :
    ∃ t us, significant v.rest = t :: us ∧ t.isTrivia = false ∧ t.Shaped ∧ t.lexeme = s.lexeme ∧ Written ss us rest ∧
      ∀ w : View, (∀ e, (v.before (t :: us)).At e → ∃ e' : Next (t :: us), step e t us = .ok e' ∧ w.At e'.1) → Goes v w := by
  obtain ⟨blanks, t, us, heq, hblanks, _, ht, hshape, hs, hrest⟩ := hw.uncons
  have hsignificant : significant v.rest = t :: us := by
    rw [heq, significant_append_of_trivia fun b hb => (hblanks b hb).1, significant_cons_of_not ht]
  refine ⟨t, us, hsignificant, ht, hshape, hs, hrest, fun w hstep => ?_⟩
  exact (Goes.loose v).trans ((goes_blanks (v := { v with tight := false }) hblanks heq rfl).trans (Goes.step rfl hstep))

end ScriptLoader.Syntax
