import ScriptLoader.Proofs.Eraser.Copies

/-!
# Tokens that are copied

What the walk does at the tokens of plain code, told for a part of a source of one lexeme each: literals, marks, brackets, words in front of
a mark, and regular expressions, behind which the source must be lexed again.
-/

namespace ScriptLoader.Syntax

open Eraser

namespace Eraser

theorem previousText₂_eq (e : Eraser) : e.previousText₂ = (lexemes e.kept).tail.head?.map (·.2) := by
  rw [previousText₂, headText_significant, keptMeaning, lexemes_tail_significant]

theorem expressionEnded_eq_ended (e : Eraser) : e.expressionEnded = ended (lexemes e.kept) := by
  rw [expressionEnded_eq, ended, keptMeaning]
  rcases significant_cases e.kept with ⟨hs, hl⟩ | ⟨t, ts, hs, _, hl⟩ <;> rw [hs, hl] <;> rfl

end Eraser

section Words

variable {e : Eraser} {t : Token} {us : List Token} {n : String}

/-- Marks that follow words in plain code. -/
def marksBehindWords : List String := [":", ",", "=", "?", "(", ")", ";", "\x7d"]

/-- The frame behind a word that is kept in front of such a mark. -/
def Frame.noting (f : Frame) (w : String) : Frame :=
  if declarationWords.contains w then { f with declaring := true }
  else if w = "case" then { f with caseLabels := f.caseLabels + 1 }
  else f

theorem headIn_of_mark (hnext : (lexemes us).head? = some (mark n)) (texts : List String) :
    headIn (significant us) texts = texts.contains n := by
  rw [headIn_significant, hnext]
  rfl

theorem noteWord_of_mark (hnext : (lexemes us).head? = some (mark n)) (hn : n ∈ marksBehindWords) (w : String) :
    e.noteWord w (significant us) = { e with frame := e.frame.noting w } := by
  have hbrace : ∀ n ∈ marksBehindWords, ["\x7b"].contains n = false := by decide
  have hname : headIsName (significant us) = false := by rw [headIsName_significant, hnext]; rfl
  unfold noteWord Frame.noting
  rw [headIn_of_mark hnext, hbrace n hn, hname]
  simp only [Bool.or_self, Bool.and_false, Bool.false_eq_true, if_false]
  split
  · rfl
  · split <;> rfl

theorem onStatement_of_mark (hnext : (lexemes us).head? = some (mark n)) (hn : n ∈ marksBehindWords) :
    onStatement e t us =
      if t.text = "import" ∧ n ≠ "(" then
        (copyImport (keep e t us).1 us).map fun e' => some ⟨e'.1, Nat.lt_of_le_of_lt e'.2 (by simp [t.width_pos])⟩
      else .ok none := by
  have htexts : ∀ n ∈ marksBehindWords, ["enum"].contains n = false ∧ ["type"].contains n = false ∧
      ["\x7b", "*"].contains n = false ∧ ["(", "."].contains n = decide (n = "(") := by decide
  obtain ⟨henum, htype, hclause, hcall⟩ := htexts n hn
  have hname : headIsName (significant us) = false := by rw [headIsName_significant, hnext]; rfl
  have hkind : headKind (significant us) = some .punctuation := by rw [headKind_significant, hnext]; rfl
  have htypes : importsType us = false := by
    rw [importsType, headIn_of_mark hnext, htype]
    rfl
  unfold onStatement
  simp only [hname, hkind, headIn_of_mark hnext, henum, htype, hclause, hcall, htypes, Bool.and_false, Bool.false_and, Bool.or_self,
    Bool.false_eq_true, if_false, Option.some.injEq, reduceCtorEq, decide_false]
  by_cases himport : t.text = "import" ∧ n ≠ "("
  · rw [if_pos (by simp [himport.1, himport.2]), if_pos himport]
  · rw [if_neg (by simpa using himport), if_neg himport]

theorem onWord_of_mark (hnext : (lexemes us).head? = some (mark n)) (hn : n ∈ marksBehindWords) (hcast : n = "(" → e.expressionEnded = false)
    (hahead : e.classAhead = false) : onWord e t us = .ok (keep { e with frame := e.frame.noting t.text } t us) := by
  have htexts : ∀ n ∈ marksBehindWords, ["[", "#"].contains n = false ∧ ["\x7b", "(", "["].contains n = decide (n = "(") := by decide
  obtain ⟨hindex, hcall⟩ := htexts n hn
  have hname : headIsName (significant us) = false := by rw [headIsName_significant, hnext]; rfl
  have hkind : headKind (significant us) = some .punctuation := by rw [headKind_significant, hnext]; rfl
  have hended : (e.expressionEnded && decide (n = "(")) = false := by
    by_cases hround : n = "("
    · rw [hcast hround, Bool.false_and]
    · rw [decide_eq_false hround, Bool.and_false]
  have hheritage : (t.text = "implements" && e.classAhead) = false := by rw [hahead, Bool.and_false]
  unfold onWord
  simp only [hname, hkind, headIn_of_mark hnext, hindex, hcall, hheritage, Bool.and_false, Bool.false_and, Bool.or_self, Bool.false_or,
    Bool.false_eq_true, if_false, Option.some.injEq, reduceCtorEq, decide_false, Bool.and_assoc, hended]
  rw [noteWord_of_mark hnext hn]

/-- In front of a mark a word is kept, unless it begins an import, types the receiver of a call, or is a cast. -/
theorem step_of_mark_behind (hkind : t.kind = .identifier) (hnext : (lexemes us).head? = some (mark n)) (hn : n ∈ marksBehindWords)
    (hpoint : e.previousText ≠ some ".") (hpoint' : e.previousText ≠ some "?.")
    (himport : t.text = "import" → n ≠ "(" → e.atStatementStart = false)
    (hreceiver : n = ":" → e.frame.isRound = true → e.previousText ≠ some "(")
    (hcast : n = "(" → e.expressionEnded = false) (hahead : e.classAhead = false) :
    step e t us = .ok (keep { e with frame := e.frame.noting t.text } t us) := by
  have hthis : (t.text = "this" && e.frame.isRound && e.previousText = some "(" && headIn (significant us) [":"]) = false := by
    rw [headIn_of_mark hnext]
    by_cases hcolon : n = ":"
    · cases hround : e.frame.isRound with
      | false => rw [Bool.and_false, Bool.false_and, Bool.false_and]
      | true => rw [decide_eq_false (hreceiver hcolon hround), Bool.and_false, Bool.false_and]
    · have hother : [":"].contains n = false := by simpa using hcolon
      rw [hother, Bool.and_false]
  have hword := onWord_of_mark (t := t) hnext hn hcast hahead
  rw [step_of_identifier hkind, onIdentifier, decide_eq_false hpoint, decide_eq_false hpoint', hthis, onStatement_of_mark hnext hn, hword]
  simp only [Bool.or_self, Bool.false_eq_true, if_false]
  split
  · rename_i hstart
    rw [if_neg fun h => absurd ((himport h.1 h.2).symm.trans hstart) (by decide)]
  · rfl

/-- In front of a mark, where a statement may begin, the word `import` begins an import: it is noted, or it is refused. -/
theorem lost_of_import (hrest : e.rest = t :: us) (ht : t.lexeme = word "import") (hnext : (lexemes us).head? = some (mark n))
    (hn : n ∈ marksBehindWords) (hcall : n ≠ "(") (hpoint : e.previousText ≠ some ".") (hpoint' : e.previousText ≠ some "?.")
    (hstart : e.atStatementStart = true) : Lost e := by
  obtain ⟨hkind, htext⟩ := lexeme_eq_word ht
  have hstatement : onStatement e t us = (copyImport (keep e t us).1 us).map fun e' =>
      some ⟨e'.1, Nat.lt_of_le_of_lt e'.2 (by simp [t.width_pos])⟩ := by
    rw [onStatement_of_mark hnext hn, if_pos ⟨htext, hcall⟩]
  have hstep : step e t us = (copyImport (keep e t us).1 us).map fun e' =>
      ⟨e'.1, Nat.lt_of_le_of_lt e'.2 (by simp [t.width_pos])⟩ := by
    rw [step_of_identifier hkind, onIdentifier, decide_eq_false hpoint, decide_eq_false hpoint', htext, hstart, hstatement]
    cases copyImport (keep e t us).1 us <;> rfl
  cases hcopy : copyImport (keep e t us).1 us with
  | error f =>
    rw [hcopy] at hstep
    exact .of_error hrest hstep
  | ok e' =>
    rw [hcopy] at hstep
    obtain ⟨s, hs⟩ := specifiers_copyImport hcopy
    exact .of_reaches (.single (.intro hrest hstep)) (.lost (.inr (hs ▸ List.cons_ne_nil _ _)))

end Words

/-- A statement may begin behind these tokens, of which the latest is the first. -/
def startsStatement (before : List Token) : Bool :=
  match headText (significant before) with
  | none => true
  | some s => boundaries.contains s || (before.takeWhile Token.isTrivia).any Token.breaksLine

/-- Where the walk skips the next token, it has lost its text. -/
theorem lost_of_skip {p : Place} {e : Eraser} {t : Token} {after us : List Token} (he : p.At e) (hafter : p.after = t :: after)
    (hrest : e.rest = t :: us) {r : Tail (t :: us)} (hstep : step e t us = .ok (skipTo e r)) : Lost e := by
  have hpos : 0 < t.text.toList.length := (hafter ▸ he.reads : Reads p.before (t :: after) e.rest).text_pos
  refine .of_reaches (.single (.intro hrest hstep)) (.lost (.inl ?_))
  obtain ⟨n, hn⟩ := Nat.exists_eq_succ_of_ne_zero (Nat.sub_ne_zero_of_lt r.shorter)
  show (textBehind e.kept).length < (textBehind (((t :: us).take ((t :: us).length - r.tokens.length)).reverse ++ e.passed)).length
  have hskipped : textBehind (t :: us.take n).reverse = t.text.toList ++ sourceText (us.take n) := by
    rw [textBehind, List.reverse_reverse, sourceText_cons]
  rw [he.kept, he.passed, hn, List.take_succ_cons, textBehind_append, hskipped, List.length_append, List.length_append]
  omega

/-! ## Colons -/

section Colons

variable {e : Eraser} {t : Token} {us : List Token}

theorem step_of_colon (ht : t.lexeme = mark ":") :
    step e t us = if e.annotates then (skipType us).map fun r => skipTo e r.toRest.afterHead else .ok (keep e.onColon t us) := by
  obtain ⟨hkind, htext⟩ := lexeme_eq_mark ht
  rw [step_of_other hkind (by rw [htext]; decide), onMark, if_neg (by rw [htext]; decide), htext]
  rfl

/-- Where a colon has a type behind it, it is not kept. -/
theorem lost_of_annotates {p : Place} {after : List Token} (he : p.At e) (hafter : p.after = t :: after) (ht : t.lexeme = mark ":")
    (hrest : e.rest = t :: us) (hannotates : e.annotates = true) : Lost e := by
  have hstep : step e t us = _ := step_of_colon ht
  rw [if_pos hannotates] at hstep
  cases hskip : skipType us with
  | error f =>
    rw [hskip] at hstep
    exact .of_error hrest hstep
  | ok r =>
    rw [hskip] at hstep
    exact lost_of_skip he hafter hrest hstep

/-- A colon behind a word that stands behind a mark. -/
theorem annotates_of_word {x prev : String} {said : List Lexeme} (h : lexemes e.kept = word x :: mark prev :: said) :
    e.annotates = (decide (e.frame.conditions = 0) && decide (e.frame.caseLabels = 0) &&
      ((e.frame.isRound && beforeParameter (some prev)) || (e.frame.declaring && (declarationWords.contains prev || decide (prev = ","))) ||
        e.frame.classBody)) := by
  have hhead : (lexemes e.kept).head? = some (word x) := by rw [h]; rfl
  obtain ⟨t, ts, hkept, -, ht⟩ := exists_of_head?_lexemes hhead
  have hprev : e.previousText₂ = some prev := by rw [previousText₂_eq, h]; rfl
  rw [annotates, keptMeaning, hkept, hprev]
  simp only [(lexeme_eq_word ht).1, if_true, Option.any_some]

/-- A colon behind a string or a number has no type behind it. -/
theorem annotates_of_literal {m : Lexeme} (h : (lexemes e.kept).head? = some m) (hkind : m.1 ∈ [TokenKind.string, .number])
    (hshaped : ∀ t ∈ e.kept, t.Shaped ∨ t.kind = .regex) : e.annotates = false := by
  obtain ⟨t, ts, hkept, -, rfl⟩ := exists_of_head?_lexemes h
  have hother : t.kind ≠ .punctuation ∧ t.kind ≠ .identifier ∧ t.kind ≠ .regex := by
    have hk : t.kind ∈ [TokenKind.string, .number] := hkind
    simp only [List.mem_cons, List.not_mem_nil, or_false] at hk
    rcases hk with hk | hk <;> rw [hk] <;> decide
  have hshape : t.Shaped := (hshaped t ((significant_suffix e.kept).mem (hkept ▸ List.mem_cons_self))).resolve_right hother.2.2
  have htext : ∀ {s : String}, beginsOther s.toList = false → t.text ≠ s := text_ne_of_kind hshape hother.1
  rw [annotates, keptMeaning, hkept]
  simp only [if_neg hother.2.1, htext (s := ")") (by decide), htext (s := "\x7d") (by decide), htext (s := "]") (by decide), decide_false,
    Bool.false_and, Bool.or_false]
  cases e.closed <;> simp only [Bool.and_false]

end Colons

section Parts

variable {P : List Token → Token → List Token → Prop} {p : Place} {m : Lexeme} {others : List Lexeme} {s : Scope} {f : Frame}
  {outer : List Frame}

theorem through_literal (h : lexemes p.after = m :: others) (hscope : p.scope = s) (hP : SparesTrivia P) (hliteral : isLiteralKind m.1 = true)
    (hm : ∀ before t after, t.lexeme = m → P before t after) : Through P True p [m] others s := by
  have hkind : m.1 ≠ .regex := by
    intro hregex
    rw [hregex] at hliteral
    cases hliteral
  refine through_kept h hP hkind hm fun t e us ht hmeets => ⟨e, step_of_literal ?_, rfl, rfl, rfl, hmeets.scope.trans hscope⟩
  rw [show t.kind = m.1 from congrArg Prod.fst ht]
  exact hliteral

/-- A mark that means nothing. -/
theorem through_mark {x : String} (h : lexemes p.after = mark x :: others) (hscope : p.scope = s) (hP : SparesTrivia P)
    (hx : isInert (mark x) = true) (hslash : x ∉ ["/", "/="]) (hm : ∀ before t after, t.lexeme = mark x → P before t after) :
    Through P True p [mark x] others s := by
  refine through_kept h hP (by simp) hm fun t e us ht hmeets => ⟨e, ?_, rfl, rfl, rfl, hmeets.scope.trans hscope⟩
  obtain ⟨hkind, htext⟩ := lexeme_eq_mark ht
  rw [step_of_other hkind (htext ▸ hslash), onMark_of_inert (htext ▸ hx)]

/-- What is separated by commas stands behind one, but for the first. -/
theorem through_separator {first : Bool} (h : lexemes p.after = (if first then [] else [mark ","]) ++ others) (hscope : p.scope = s)
    (hP : SparesTrivia P) (hm : ∀ before t after, t.lexeme = mark "," → P before t after) :
    Through P True p (if first then [] else [mark ","]) others s := by
  cases first with
  | true => exact .nil hscope h
  | false => exact through_mark h hscope hP (by decide) (by decide) hm

/-- A word in front of a mark is kept, unless it begins an import. -/
theorem through_word {C : Prop} {x n : String} (h : lexemes p.after = word x :: mark n :: others) (hscope : p.scope = ⟨f, outer, false⟩)
    (hP : SparesTrivia P) (hn : n ∈ marksBehindWords) (hpoint : ∀ s ∈ [".", "?."], (lexemes p.before).head?.map (·.2) ≠ some s)
    (hreceiver : n = ":" → f.isRound = true → (lexemes p.before).head?.map (·.2) ≠ some "(")
    (hcast : n = "(" → ended (lexemes p.before) = false)
    (hm : ∀ before t after, lexemes before = lexemes p.before → t.lexeme = word x →
      (C ∧ P before t after ↔ (x = "import" → n ≠ "(" → startsStatement before = false))) :
    Through P C p [word x] (mark n :: others) ⟨f.noting x, outer, false⟩ := by
  refine .token h hP fun q t after hafter ht hothers hbefore hsame => Decides.congr ?_ (hm q.before t after hbefore ht)
  obtain ⟨hkind, htext⟩ := lexeme_eq_word ht
  have hregex : t.kind ≠ .regex := by rw [hkind]; decide
  have hnext {us : List Token} (hus : Reads (t :: q.before) after us) : (lexemes us).head? = some (mark n) :=
    (hus.head (by rw [hothers]; rfl)).1 (by simp)
  have hprevious {e : Eraser} (he : q.At e) : ∀ s ∈ [".", "?."], e.previousText ≠ some s := by
    rw [previousText_eq, he.kept, hbefore]
    exact hpoint
  have hstart {e : Eraser} (he : q.At e) : e.atStatementStart = startsStatement q.before := by
    rw [← he.kept]
    rfl
  refine ⟨fun hplain => ?_, fun hnot e he => ?_⟩
  · refine copies_of_step hafter hregex fun e us he hus => ⟨{ e with frame := e.frame.noting t.text }, ?_, rfl, rfl, rfl, ?_⟩
    · have hscope' : e.scope = ⟨f, outer, false⟩ := (he.scope.trans hsame).trans hscope
      have hframe : e.frame = f := congrArg Scope.frame hscope'
      refine step_of_mark_behind hkind (hnext hus) hn (hprevious he _ (by decide)) (hprevious he _ (by decide)) ?_ ?_ ?_
        (congrArg Scope.ahead hscope')
      · intro himport hcall
        rw [hstart he]
        exact hplain (htext.symm.trans himport) hcall
      · rw [hframe, previousText_eq, he.kept, hbefore]
        exact hreceiver
      · rw [expressionEnded_eq_ended, he.kept, hbefore]
        exact hcast
    · have hscope' : e.scope = ⟨f, outer, false⟩ := (he.scope.trans hsame).trans hscope
      obtain ⟨rfl, rfl, hahead⟩ := Scope.mk.inj hscope'
      rw [htext, ← hahead]
      rfl
  · have hreads : Reads q.before (t :: after) e.rest := hafter ▸ he.reads
    obtain ⟨us, hrest, hus⟩ := hreads.next hregex
    obtain ⟨himport, hcall, hbegins⟩ : x = "import" ∧ n ≠ "(" ∧ startsStatement q.before = true := by
      simpa only [Classical.not_imp, Bool.not_eq_false] using hnot
    exact lost_of_import hrest (ht.trans (congrArg word himport)) (hnext hus) hn hcall (hprevious he _ (by decide))
      (hprevious he _ (by decide)) ((hstart he).trans hbegins)

/-- A semicolon ends a declaration of variables. -/
theorem through_semicolon {ahead : Bool} (h : lexemes p.after = mark ";" :: others) (hscope : p.scope = ⟨f, outer, ahead⟩)
    (hP : SparesTrivia P) (hm : ∀ before t after, t.lexeme = mark ";" → P before t after) :
    Through P True p [mark ";"] others ⟨{ f with declaring := false }, outer, ahead⟩ := by
  refine through_kept h hP (by simp) hm fun t e us ht hmeets =>
    ⟨{ e with frame := { e.frame with declaring := false } }, ?_, rfl, rfl, rfl, ?_⟩
  · obtain ⟨hkind, htext⟩ := lexeme_eq_mark ht
    rw [step_of_other hkind (by rw [htext]; decide), onMark, htext]
    rfl
  · obtain ⟨rfl, rfl, rfl⟩ := Scope.mk.inj (hmeets.scope.trans hscope)
    rfl

/-- A bracket opens, where a class has begun only its body. -/
theorem through_opener {b : Bracket} {ahead : Bool} (h : lexemes p.after = mark b.opener :: others) (hscope : p.scope = ⟨f, outer, ahead⟩)
    (hP : SparesTrivia P) (hahead : ahead = true → b = .curly) (hm : ∀ before t after, t.lexeme = mark b.opener → P before t after) :
    Through P True p [mark b.opener] others ⟨Frame.opening b ((lexemes p.before).head?.map (·.2)) ahead, f :: outer, false⟩ := by
  have hbody : (b == .curly && ahead) = ahead := by
    cases ahead with
    | false => rw [Bool.and_false]
    | true => rw [hahead rfl]; rfl
  refine through_kept h hP (by simp) hm fun t e us ht hmeets => ⟨{ e with
    frame := Frame.opening b e.previousText (b == .curly && e.classAhead)
    outer := e.frame :: e.outer
    classAhead := e.classAhead && !(b == .curly && e.classAhead) }, ?_, rfl, rfl, rfl, ?_⟩
  · obtain ⟨hkind, htext⟩ := lexeme_eq_mark ht
    have hslash : t.text ∉ ["/", "/="] := by rw [htext]; cases b <;> decide
    rw [step_of_other hkind hslash, onMark_of_opener htext]
    rfl
  · obtain ⟨hframe, houter, hclass⟩ := Scope.mk.inj (hmeets.scope.trans hscope)
    simp only [scope, previousText_eq, hmeets.said, hclass, hbody, hframe, houter, Bool.and_not_self]

/-- The bracket that is open closes. -/
theorem through_closer {b : Bracket} {g : Frame} {ahead : Bool} (h : lexemes p.after = mark b.closer :: others)
    (hscope : p.scope = ⟨g, f :: outer, ahead⟩) (hP : SparesTrivia P) (hbracket : g.bracket = some b)
    (hm : ∀ before t after, t.lexeme = mark b.closer → P before t after) : Through P True p [mark b.closer] others ⟨f, outer, ahead⟩ := by
  refine through_kept h hP (by simp) hm fun t e us ht hmeets =>
    ⟨{ e with frame := f, outer, closed := some e.frame }, ?_, rfl, rfl, rfl, ?_⟩
  · obtain ⟨hkind, htext⟩ := lexeme_eq_mark ht
    have hother : t.text ∉ ["/", "/=", "?", "!", ":", "<"] := by rw [htext]; cases b <;> decide
    simp only [List.mem_cons, List.not_mem_nil, or_false, not_or] at hother
    obtain ⟨h₁, h₂, h₃, h₄, h₅, h₆⟩ := hother
    obtain ⟨hframe, hopen, -⟩ := Scope.mk.inj (hmeets.scope.trans hscope)
    have hcurrent : e.frame.bracket = some b := by rw [hframe, hbracket]
    rw [step_of_other hkind (by simp only [List.mem_cons, h₁, h₂, List.not_mem_nil, or_self, not_false_eq_true]), onMark,
      if_neg h₃, decide_eq_false h₄, Bool.false_and, if_neg Bool.false_ne_true, if_neg h₅, if_neg h₆, htext, opened?_closer,
      Bracket.closed?_closer]
    simp only [onClosing, hopen, hcurrent, if_true]
  · obtain ⟨-, -, rfl⟩ := Scope.mk.inj (hmeets.scope.trans hscope)
    rfl

end Parts

/-! ## Regular expressions -/

/-- What the lexer makes of a regular expression is put together again to the same token, from the same place on. -/
theorem Reads.regex {before after us : List Token} {t : Token} (h : Reads before (t :: after) us) (hkind : t.kind = .regex) :
    ∃ v vs, us = v :: vs ∧ v.kind = .punctuation ∧ (v.text = "/" ∨ v.text = "/=") ∧
      regexLength (sourceText (v :: vs)) = some t.text.toList.length ∧
      (sourceText (v :: vs)).drop t.text.toList.length = sourceText after ∧
      regexToken v (sourceText (v :: vs)) t.text.toList.length = t ∧
      (⟨v.position.line, v.position.column + ((sourceText (v :: vs)).take t.text.toList.length).length⟩ : Position) =
        (Position.first.advance (textBehind before)).advance t.text.toList ∧
      v.start + ((sourceText (v :: vs)).take t.text.toList.length).length = (textBehind before).length + t.text.toList.length := by
  obtain ⟨v, vs, rfl, hv, hslash, hstart, hposition⟩ := h.slash hkind
  obtain ⟨hplace, hoffset, -⟩ := h.tiled
  have hlength := h.regexLength_eq hkind
  have htext : sourceText (v :: vs) = t.text.toList ++ sourceText after := sourceText_lexFrom h.lexed
  rw [← sourceText_lexFrom h.lexed] at hlength
  have htake : (sourceText (v :: vs)).take t.text.toList.length = t.text.toList := by rw [htext, List.take_left]
  obtain ⟨-, hline⟩ := regexLength_le hlength
  rw [htake] at hline
  refine ⟨v, vs, rfl, hv, hslash, hlength, by rw [htext, List.drop_left], ?_, ?_, ?_⟩
  · rw [regexToken, htake, String.ofList_toList, hstart, hposition, ← hkind]
  · rw [htake, hposition, ← hplace, Position.advance_of_line hline]
  · rw [htake, hstart, hoffset]

/-- Where the text behind a regular expression cannot be lexed, the source is refused. -/
theorem Eraser.step_of_regex_refused {e : Eraser} {t : Token} {ts : List Token} {n : Nat} {stray : Stray} (hkind : t.kind = .punctuation)
    (hslash : t.text = "/" ∨ t.text = "/=") (hended : e.expressionEnded = false) (hn : regexLength (sourceText (t :: ts)) = some n)
    (hstray : lexFrom ⟨t.position.line, t.position.column + ((sourceText (t :: ts)).take n).length⟩
      (t.start + ((sourceText (t :: ts)).take n).length) ((sourceText (t :: ts)).drop n) = .error stray) :
    ∃ r, step e t ts = .error r := by
  have htrivia : t.isTrivia = false := by simp [Token.isTrivia, hkind]
  have hmark : ((t.text = "/" || t.text = "/=") && !e.expressionEnded) = true := by
    rcases hslash with h | h <;> simp [h, hended]
  rw [step, if_neg (by simp [htrivia]), if_neg (by simp [hkind]), if_pos hkind, onPunctuation, if_pos hmark]
  split
  · rename_i m hm
    obtain rfl : n = m := Option.some.inj (hn.symm.trans hm)
    unfold onRegex
    simp only
    split
    · exact ⟨_, rfl⟩
    · rename_i us hus
      cases hstray.symm.trans hus
  · rename_i hnone
    cases hn.symm.trans hnone

/-- A regular expression is copied where an expression may begin, if the source can be lexed from its end on. -/
theorem through_regex {P : List Token → Token → List Token → Prop} {p : Place} {m : Lexeme} {others : List Lexeme} {s : Scope}
    (h : lexemes p.after = m :: others) (hscope : p.scope = s) (hP : SparesTrivia P) (hregex : m.1 = .regex)
    (hended : ended (lexemes p.before) = false) (hm : ∀ before t after, t.lexeme = m → (P before t after ↔ Lexable (sourceText after))) :
    Through P True p [m] others s := by
  refine .token h hP fun q t after hafter ht hothers hbefore hsame => ?_
  have hkind : t.kind = .regex := (congrArg Prod.fst ht).trans hregex
  have hreads {e : Eraser} (he : q.At e) : Reads q.before (t :: after) e.rest := hafter ▸ he.reads
  have hbegins {e : Eraser} (he : q.At e) : e.expressionEnded = false := by rw [expressionEnded_eq_ended, he.kept, hbefore, hended]
  -- the walk has the slash in front of it, and lexes the text behind the expression anew
  refine Decides.congr ⟨?_, ?_⟩ ((and_iff_right trivial).trans (hm q.before t after ht))
  · intro hlexable e he
    obtain ⟨v, vs, hrest, hv, hslash, hlength, hdrop, htoken, hplace, hoffset⟩ := (hreads he).regex hkind
    obtain ⟨us, hus⟩ := (lexable_iff _ _).mp hlexable
    obtain ⟨hw, hstep⟩ := step_of_regex hv hslash (hbegins he) hlength (by rw [hdrop, hplace, hoffset]; exact hus)
    refine ⟨_, .single (.intro hrest hstep), ?_, ?_, he.specifiers, (he.scope.trans hsame).trans hscope,
      List.forall_mem_cons.mpr ⟨.inr hkind, he.shaped⟩, (hreads he).tail_of_lexed hus⟩
    · show _ :: e.passed = t :: q.before
      rw [htoken, he.passed]
    · show _ :: e.kept = t :: q.before
      rw [htoken, he.kept]
  · intro hnot e he
    obtain ⟨v, vs, hrest, hv, hslash, hlength, hdrop, -, hplace, hoffset⟩ := (hreads he).regex hkind
    cases hlex : lexFrom ((Position.first.advance (textBehind q.before)).advance t.text.toList)
        ((textBehind q.before).length + t.text.toList.length) (sourceText after) with
    | ok us => exact absurd ((lexable_iff _ _).mpr ⟨us, hlex⟩) hnot
    | error stray =>
      obtain ⟨r, hr⟩ := step_of_regex_refused hv hslash (hbegins he) hlength (by rw [hdrop, hplace, hoffset]; exact hlex)
      exact .of_error hrest hr

/-! ## Atoms -/

/-- A name or a literal. Any word is a name but for `import`. -/
structure Atom where
  lexeme : Lexeme
  valid : lexeme.1 ∈ [.string, .template, .number, .regex] ∨ lexeme.1 = .identifier ∧ lexeme.2 ≠ "import"

/-- The frame behind an atom. -/
def Atom.behind (a : Atom) (f : Frame) : Frame := if a.lexeme.1 = .identifier then f.noting a.lexeme.2 else f

theorem Atom.ne_mark (a : Atom) (s : String) : a.lexeme ≠ mark s := by
  intro heq
  have hvalid := a.valid
  rw [heq] at hvalid
  simp at hvalid

theorem Atom.ne_import (a : Atom) : a.lexeme ≠ word "import" := by
  intro heq
  have hvalid := a.valid
  rw [heq] at hvalid
  simp at hvalid

/-- Marks that a value can stand behind. -/
def marksBeforeValues : List String := ["=", "?", ":", "(", ","]

/-- A value can stand behind the mark `sign` and in front of `others`. -/
def Fits (sign : String) (others : List Lexeme) : Prop :=
  sign ∈ marksBeforeValues ∧ ∃ n ∈ marksBehindWords, ∃ more, others = mark n :: more ∧ (n = ":" → sign ≠ "(")

theorem fits_mark (sign n : String) {more : List Lexeme} (hsign : sign ∈ marksBeforeValues) (hn : n ∈ marksBehindWords)
    (hcolon : n ≠ ":") : Fits sign (mark n :: more) := ⟨hsign, n, hn, more, rfl, fun h => absurd h hcolon⟩

theorem fits_colon (sign : String) {more : List Lexeme} (hsign : sign ∈ marksBeforeValues) (hround : sign ≠ "(") :
    Fits sign (mark ":" :: more) := ⟨hsign, ":", by decide, more, rfl, fun _ => hround⟩

theorem ended_of_sign {sign : String} {said : List Lexeme} (h : said.head? = some (mark sign)) (hsign : sign ∈ marksBeforeValues) :
    ended said = false := by
  obtain ⟨more, rfl⟩ := List.head?_eq_some_iff.mp h
  simp only [marksBeforeValues, List.mem_cons, List.not_mem_nil, or_false] at hsign
  rcases hsign with rfl | rfl | rfl | rfl | rfl <;> rfl

/-- An atom between such marks is kept, but behind a regular expression the source must be lexed again. -/
theorem through_atom {P : List Token → Token → List Token → Prop} {p : Place} {a : Atom} {sign : String} {others : List Lexeme}
    {f : Frame} {outer : List Frame} (h : lexemes p.after = a.lexeme :: others) (hscope : p.scope = ⟨f, outer, false⟩) (hP : SparesTrivia P)
    (hfits : Fits sign others) (hbefore : (lexemes p.before).head? = some (mark sign))
    (hm : ∀ before t after, t.lexeme = a.lexeme → (P before t after ↔ (t.kind = .regex → Lexable (sourceText after)))) :
    Through P True p [a.lexeme] others ⟨a.behind f, outer, false⟩ := by
  obtain ⟨⟨kind, x⟩, hvalid⟩ := a
  obtain ⟨hsign, n, hn, others, rfl, hreceiver⟩ := hfits
  simp only [List.mem_cons, List.not_mem_nil, or_false] at hvalid h hm ⊢
  have hended : ended (lexemes p.before) = false := ended_of_sign hbefore hsign
  rcases hvalid with hliteral | ⟨rfl, himport⟩
  · have hword : kind ≠ .identifier := by rcases hliteral with rfl | rfl | rfl | rfl <;> decide
    rw [Atom.behind, if_neg hword]
    by_cases hregex : kind = .regex
    · refine through_regex h hscope hP hregex hended fun before t after ht => (hm before t after ht).trans ?_
      exact forall_prop_of_true ((congrArg Prod.fst ht).trans hregex)
    · have hplain : isLiteralKind kind = true := by
        rcases hliteral with rfl | rfl | rfl | rfl
        · rfl
        · rfl
        · rfl
        · exact absurd rfl hregex
      exact through_literal h hscope hP hplain fun before t after ht =>
        (hm before t after ht).mpr fun hk => absurd ((congrArg Prod.fst ht).symm.trans hk) hregex
  · rw [Atom.behind, if_pos rfl]
    have hpoints : ∀ s ∈ [".", "?."], s ∉ marksBeforeValues := by decide
    refine through_word h hscope hP hn ?_ ?_ (fun _ => hended) fun before t after _ ht => iff_of_true ⟨trivial, ?_⟩ ?_
    · rw [hbefore]
      exact fun s hs heq => hpoints s hs (Option.some.inj heq ▸ hsign)
    · rw [hbefore]
      exact fun hcolon _ heq => hreceiver hcolon (Option.some.inj heq)
    · exact (hm before t after ht).mpr fun hk => absurd (hk.symm.trans (congrArg Prod.fst ht)) (by simp)
    · exact fun heq => absurd heq himport

end ScriptLoader.Syntax
