import ScriptLoader.Proofs.Core.Grammar
import ScriptLoader.Proofs.Core.View

/-!
# Code that is kept

What the eraser does at the code of a core program: one step for each symbol that means something to it, one for all that mean nothing
(`isInert`), and the way through a pair of brackets.
-/

namespace ScriptLoader.Syntax

open Eraser

/-! ## Symbols that mean nothing -/

/-- Words, literals and marks that the eraser keeps without taking note of them. -/
def isInert (m : Lexeme) : Bool :=
  match m.1 with
  | .identifier => !(typeWords ++ declarationWords ++ ["this"]).contains m.2
  | .string | .template | .number => true
  | .punctuation => !(["?", "!", ":", "<", ";"].contains m.2) && Bracket.opened? m.2 == none && Bracket.closed? m.2 == none
  | _ => false

section Steps

variable {e : Eraser} {t : Token} {ts : List Token}

theorem step_of_identifier (hkind : t.kind = .identifier) : step e t ts = onIdentifier e t ts := by
  rw [step, Token.isTrivia, hkind]
  rfl

/-- A mark is read as such unless it begins a regular expression. -/
theorem step_of_mark (hkind : t.kind = .punctuation) (hslash : t.text ∈ ["/", "/="] → e.expressionEnded = true) :
    step e t ts = onMark e t ts := by
  have hstep : step e t ts = onPunctuation e t ts := by
    rw [step, Token.isTrivia, hkind]
    rfl
  rw [hstep, onPunctuation, if_neg]
  intro hregex
  rw [Bool.and_eq_true, Bool.or_eq_true, decide_eq_true_eq, decide_eq_true_eq] at hregex
  rw [hslash (by rcases hregex.1 with h | h <;> rw [h] <;> decide)] at hregex
  cases hregex.2

theorem step_of_other (hkind : t.kind = .punctuation) (hslash : t.text ∉ ["/", "/="]) : step e t ts = onMark e t ts :=
  step_of_mark hkind fun hmem => absurd hmem hslash

theorem step_of_literal (hkind : isLiteralKind t.kind = true) : step e t ts = .ok (keep e t ts) := by
  simp only [isLiteralKind, Bool.or_eq_true, beq_iff_eq] at hkind
  rw [step, Token.isTrivia]
  rcases hkind with (h | h) | h <;> rw [h] <;> rfl

theorem onMark_of_inert (h : isInert (mark t.text) = true) : onMark e t ts = .ok (keep e t ts) := by
  simp only [isInert, Bool.and_eq_true, Bool.not_eq_true', List.contains_eq_mem, decide_eq_false_iff_not, List.mem_cons,
    List.not_mem_nil, or_false, not_or, beq_iff_eq] at h
  obtain ⟨⟨⟨h₁, h₂, h₃, h₄, h₅⟩, hopen⟩, hclose⟩ := h
  unfold onMark
  rw [if_neg h₁, decide_eq_false h₂, Bool.false_and, if_neg (by nofun), if_neg h₃, if_neg h₄, hopen, hclose]
  exact if_neg h₅

theorem onMark_of_opener {b : Bracket} (htext : t.text = b.opener) : onMark e t ts = .ok (onOpening e b t ts) := by
  have hother : t.text ∉ ["?", "!", ":", "<"] := by rw [htext]; cases b <;> decide
  simp only [List.mem_cons, List.not_mem_nil, or_false, not_or] at hother
  obtain ⟨h₁, h₂, h₃, h₄⟩ := hother
  rw [onMark, if_neg h₁, decide_eq_false h₂, Bool.false_and, if_neg (by nofun), if_neg h₃, if_neg h₄, htext, Bracket.opened?_opener]

theorem onIdentifier_eq_keep (hword : t.text ∉ typeWords) (hdeclares : t.text ∉ declarationWords)
    (hthis : t.text = "this" → headIn (significant ts) [":"] = false) : onIdentifier e t ts = .ok (keep e t ts) := by
  have hconst : t.text ≠ "const" := fun hc => hdeclares (hc ▸ by decide)
  have hnone : onStatement e t ts = .ok none :=
    onStatement_eq_none ts (fun hmem => hword (mem_typeWords_of_mem_statementWords hmem)) fun hc => absurd hc hconst
  have hkeep : onWord e t ts = .ok (keep e t ts) := by
    rw [onWord_eq_keep ts hword, noteWord_eq hword, List.contains_eq_mem, decide_eq_false hdeclares, Bool.or_false]
  have hreceiver : (t.text = "this" && e.frame.isRound && e.previousText = some "(" && headIn (significant ts) [":"]) = false := by
    by_cases h : t.text = "this"
    · rw [hthis h, Bool.and_false]
    · rw [decide_eq_false h, Bool.false_and, Bool.false_and, Bool.false_and]
  rw [onIdentifier, hreceiver, hnone, hkeep]
  simp only [Bool.false_eq_true, if_false, ite_self]

theorem onIdentifier_of_inert (h : isInert (word t.text) = true) : onIdentifier e t ts = .ok (keep e t ts) := by
  simp only [isInert, Bool.not_eq_true', List.contains_eq_mem, decide_eq_false_iff_not, List.mem_append, List.mem_singleton,
    not_or] at h
  exact onIdentifier_eq_keep h.1.1 h.1.2 fun hthis => absurd hthis h.2

end Steps

section Kept

variable {v : View} {ss : List Sym} {rest : List Token}

theorem goes_inert {m : Lexeme} (hw : Written (code m :: ss) v.rest rest) (hm : isInert m = true)
    (hslash : m ∈ [mark "/", mark "/="] → ended v.said = true) :
    ∃ us, Written ss us rest ∧ Goes v (v.after [code m] us).tightly := by
  obtain ⟨t, us, _, ht, hshape, hs, hrest, hgo⟩ := goes_to_symbol hw
  obtain rfl : t.lexeme = m := hs
  have hclose : t.lexeme ≠ mark ")" := by
    intro hc
    rw [hc] at hm
    cases hm
  refine ⟨us, hrest, hgo _ fun e he => ⟨keep e t us, ?_, he.keep ht hshape rfl hclose rfl he.frame rfl he.ahead⟩⟩
  cases hkind : t.kind with
  | identifier =>
    rw [Token.lexeme, hkind] at hm
    rw [step_of_identifier hkind, onIdentifier_of_inert hm]
  | punctuation =>
    rw [Token.lexeme, hkind] at hm hslash
    rw [step_of_mark hkind ?_, onMark_of_inert hm]
    intro hmem
    rw [he.expressionEnded]
    refine hslash ?_
    rcases List.mem_cons.mp hmem with hmem | hmem
    · rw [hmem]; decide
    · rw [List.mem_singleton.mp hmem]; decide
  | string => exact step_of_literal (by rw [hkind]; rfl)
  | template => exact step_of_literal (by rw [hkind]; rfl)
  | number => exact step_of_literal (by rw [hkind]; rfl)
  | lineComment | blockComment | blank | regex =>
    rw [Token.lexeme, hkind] at hm
    cases hm

/-- What means nothing and is no slash is kept anywhere. -/
theorem goes_plain {m : Lexeme} (hw : Written (code m :: ss) v.rest rest) (hm : isInert m = true ∧ m ∉ [mark "/", mark "/="]) :
    ∃ us, Written ss us rest ∧ Goes v (v.after [code m] us).tightly :=
  goes_inert hw hm.1 fun hslash => absurd hslash hm.2

theorem isInert_of_ordinary {m : Lexeme} (hkind : m.1 = .identifier) (hm : Ordinary m.2) : isInert m = true := by
  have hsubset : ∀ w ∈ typeWords ++ declarationWords ++ ["this"], w ∈ reservedWords := by decide
  rw [isInert, hkind]
  simp only [Bool.not_eq_true', List.contains_eq_mem, decide_eq_false_iff_not]
  exact fun hmem => hm (hsubset _ hmem)

/-- The next token is the next symbol. -/
theorem headIn_of_written {s : Sym} {us : List Token} (hw : Written (s :: ss) us rest) (texts : List String) :
    headIn (significant us) texts = texts.contains s.lexeme.2 := by
  rw [headIn_significant, hw.lexemes_eq]
  rfl

theorem headIsName_of_written {s : Sym} {us : List Token} (hw : Written (s :: ss) us rest) :
    headIsName (significant us) = (s.lexeme.1 == .identifier) := by
  rw [headIsName_significant, hw.lexemes_eq]
  rfl

theorem headKind_of_written {s : Sym} {us : List Token} (hw : Written (s :: ss) us rest) :
    headKind (significant us) = some s.lexeme.1 := by
  rw [headKind_significant, hw.lexemes_eq]
  rfl

/-- A word or a literal has the text of no mark. -/
theorem headIn_of_word {s : Sym} {us : List Token} (hw : Written (s :: ss) us rest) (hkind : s.lexeme.1 ≠ .punctuation)
    {texts : List String} (htexts : ∀ m ∈ texts, beginsOther m.toList = false) : headIn (significant us) texts = false := by
  obtain ⟨t, us', hnext, _, hshape, ht, _⟩ := hw.significant
  rw [hnext, headIn, Bool.eq_false_iff, Ne, List.contains_iff_mem]
  intro hmem
  have hkind' : t.kind ≠ .punctuation := by
    rw [show t.kind = s.lexeme.1 from congrArg Prod.fst ht]
    exact hkind
  exact text_ne_of_kind hshape hkind' (htexts t.text hmem) rfl

/-- Behind a point any word is kept. -/
theorem goes_member {dot x : String} (hw : Written (codeWord x :: ss) v.rest rest) (hdot : dot ∈ [".", "?."])
    (hsaid : v.said.head? = some (mark dot)) : ∃ us, Written ss us rest ∧ Goes v (v.after [codeWord x] us).tightly := by
  obtain ⟨t, us, _, ht, hshape, hs, hrest, hgo⟩ := goes_to_symbol hw
  refine ⟨us, hrest, hgo _ fun e he => ⟨keep e t us, ?_, he.keep ht hshape hs nofun rfl he.frame rfl he.ahead⟩⟩
  have hprevious : e.previousText = some dot := by rw [he.previousText, show (v.before (t :: us)).said = v.said from rfl, hsaid]; rfl
  rw [step_of_identifier (lexeme_eq_word hs).1, onIdentifier, hprevious, if_pos]
  rcases List.mem_cons.mp hdot with rfl | hdot
  · rfl
  · rw [List.mem_singleton.mp hdot]; rfl

/-- `this` is kept where it does not name the receiver of a call. -/
theorem goes_this (hw : Written (codeWord "this" :: ss) v.rest rest)
    (hnext : ∀ us, Written ss us rest → headIn (significant us) [":"] = false) :
    ∃ us, Written ss us rest ∧ Goes v (v.after [codeWord "this"] us).tightly := by
  obtain ⟨t, us, _, ht, hshape, hs, hrest, hgo⟩ := goes_to_symbol hw
  refine ⟨us, hrest, hgo _ fun e he => ⟨keep e t us, ?_, he.keep ht hshape hs nofun rfl he.frame rfl he.ahead⟩⟩
  obtain ⟨hkind, htext⟩ := lexeme_eq_word hs
  rw [step_of_identifier hkind, onIdentifier_eq_keep (htext ▸ by decide) (htext ▸ by decide)]
  exact fun _ => hnext us hrest

/-- An exclamation mark that no expression has ended before. -/
theorem goes_negation (hw : Written (codeMark "!" :: ss) v.rest rest) (hended : ended v.said = false) :
    ∃ us, Written ss us rest ∧ Goes v (v.after [codeMark "!"] us).tightly := by
  obtain ⟨t, us, _, ht, hshape, hs, hrest, hgo⟩ := goes_to_symbol hw
  obtain ⟨hkind, htext⟩ := lexeme_eq_mark hs
  refine ⟨us, hrest, hgo _ fun e he => ⟨keep e t us, ?_, he.keep ht hshape hs nofun rfl he.frame rfl he.ahead⟩⟩
  have hasserts : e.assertsNonNull = false := by
    rw [assertsNonNull]
    split
    · rfl
    · rw [he.expressionEnded, show ended (v.before (t :: us)).said = false from hended, Bool.and_false]
  rw [step_of_other hkind (by rw [htext]; decide), onMark, if_neg (by rw [htext]; decide), htext, hasserts]
  rfl

/-- A semicolon ends a declaration of variables. -/
theorem goes_semicolon (declaring : Bool) (hw : Written (codeMark ";" :: ss) v.rest rest) (hdeclaring : v.frame.declaring = false) :
    ∃ us, Written ss us rest ∧ Goes (v.declaring declaring) (v.after [codeMark ";"] us).tightly := by
  obtain ⟨t, us, _, ht, hshape, hs, hrest, hgo⟩ := goes_to_symbol (v := v.declaring declaring) hw
  obtain ⟨hkind, htext⟩ := lexeme_eq_mark hs
  have hframe : { v.frame with declaring := false } = v.frame := by rw [← hdeclaring]
  refine ⟨us, hrest, hgo _ fun e he => ⟨keep { e with frame := { e.frame with declaring := false } } t us, ?_,
    he.keep ht hshape hs nofun rfl (by rw [he.frame]; exact hframe) rfl he.ahead⟩⟩
  rw [step_of_other hkind (by rw [htext]; decide), onMark, htext]
  rfl

/-- A question mark waits for its colon, where it marks nothing as optional. -/
theorem goes_question (hw : Written (codeMark "?" :: ss) v.rest rest)
    (hnext : ∀ us, Written ss us rest → headIn (significant us) [":", ",", ")", "=", ";"] = false ∧
      (v.frame.classBody = true → headIn (significant us) ["("] = false)) :
    ∃ us, Written ss us rest ∧
      Goes v (v.after [codeMark "?"] us).waiting.tightly := by
  obtain ⟨t, us, _, ht, hshape, hs, hrest, hgo⟩ := goes_to_symbol hw
  obtain ⟨hkind, htext⟩ := lexeme_eq_mark hs
  refine ⟨us, hrest, hgo _ fun e he => ⟨keep { e with frame := { e.frame with conditions := e.frame.conditions + 1 } } t us, ?_,
    he.keep ht hshape hs nofun rfl (by rw [he.frame]; rfl) rfl he.ahead⟩⟩
  obtain ⟨hother, hround⟩ := hnext us hrest
  have hoptional : e.marksOptional (significant us) = false := by
    have hframe : e.frame = v.frame := he.frame
    cases hsig : significant us with
    | nil => simp only [marksOptional, headIn, Bool.and_false, ite_self]
    | cons u _ =>
      rw [hsig] at hother hround
      simp only [headIn, List.contains_eq_mem, decide_eq_false_iff_not, List.mem_cons, List.not_mem_nil, or_false, not_or] at hother hround
      simp only [marksOptional, headIn, List.contains_eq_mem, List.mem_cons, List.not_mem_nil, or_false, hother, false_or,
        decide_false, hframe]
      cases hbody : v.frame.classBody with
      | false => simp only [Bool.false_and, ite_self, Bool.and_false]
      | true => simp only [hround hbody, decide_false, Bool.and_false, ite_self]
  rw [step_of_other hkind (by rw [htext]; decide), onMark, if_pos htext, hoptional]
  rfl

/-- A colon answers the question mark that waits for it. -/
theorem goes_colon (hw : Written (codeMark ":" :: ss) v.rest rest) :
    ∃ us, Written ss us rest ∧ Goes v.waiting (v.after [codeMark ":"] us).tightly := by
  obtain ⟨t, us, _, ht, hshape, hs, hrest, hgo⟩ := goes_to_symbol (v := v.waiting) hw
  obtain ⟨hkind, htext⟩ := lexeme_eq_mark hs
  have hwaits : (v.waiting.before (t :: us)).frame.conditions ≠ 0 := Nat.succ_ne_zero _
  refine ⟨us, hrest, hgo _ fun e he => ⟨keep e.onColon t us, ?_, he.keep ht hshape hs nofun rfl ?_ rfl he.ahead⟩⟩
  · have hannotates : e.annotates = false := by
      rw [annotates, he.frame, decide_eq_false hwaits, Bool.false_and, Bool.false_and]
    rw [step_of_other hkind (by rw [htext]; decide), onMark, if_neg (by rw [htext]; decide), htext, hannotates]
    rfl
  · rw [onColon, he.frame]
    dsimp only
    rw [if_pos hwaits]
    rfl

/-- The key of an object and its colon, which has no type behind it. -/
theorem goes_key {key : Lexeme} (hkey : IsKey key) (hw : Written (code key :: codeMark ":" :: ss) v.rest rest)
    (hround : v.frame.isRound = false) (hdeclaring : v.frame.declaring = false) (hbody : v.frame.classBody = false)
    (hlabels : v.frame.caseLabels = 0) (hconditions : v.frame.conditions = 0) :
    ∃ us, Written ss us rest ∧ Goes v (v.after [code key, codeMark ":"] us).tightly := by
  have hinert : isInert key = true := by
    rcases hkey with ⟨hkind, hordinary⟩ | hkind | hkind
    · exact isInert_of_ordinary hkind hordinary
    · rw [isInert, hkind]
    · rw [isInert, hkind]
  have hkind : key.1 ≠ .punctuation := by rcases hkey with ⟨h, _⟩ | h | h <;> rw [h] <;> nofun
  obtain ⟨us, hw, hgo⟩ := goes_inert hw hinert fun hslash => by
    rcases List.mem_cons.mp hslash with rfl | hslash
    · exact absurd rfl hkind
    · exact absurd (List.mem_singleton.mp hslash ▸ rfl) hkind
  obtain ⟨t, us', _, ht, hshape, hs, hrest, hcolon⟩ := goes_to_symbol (v := (v.after [code key] us).tightly) hw
  obtain ⟨hmark, htext⟩ := lexeme_eq_mark hs
  refine ⟨us', hrest, hgo.trans (hcolon _ fun e he => ⟨keep e.onColon t us', ?_,
    he.keep ht hshape hs nofun rfl ?_ rfl he.ahead⟩)⟩
  · have hannotates : e.annotates = false := he.annotates_eq_false rfl hkind hround hdeclaring hbody
    rw [step_of_other hmark (by rw [htext]; decide), onMark, if_neg (by rw [htext]; decide), htext, hannotates]
    rfl
  · rw [onColon, he.frame]
    show (if v.frame.conditions ≠ 0 then _ else { v.frame with caseLabels := v.frame.caseLabels - 1 }) = v.frame
    rw [if_neg (by rw [hconditions]; decide), hlabels, Nat.zero_sub, ← hlabels]

/-! ## Words that begin something -/

/-- A word that begins no statement of its own is read as a word inside a statement. -/
theorem step_of_word {e : Eraser} {t : Token} {ts : List Token} (hkind : t.kind = .identifier) (hthis : t.text ≠ "this")
    (hpoint : e.previousText ≠ some ".") (hpoint' : e.previousText ≠ some "?.") (hnone : onStatement e t ts = .ok none) :
    step e t ts = onWord e t ts := by
  rw [step_of_identifier hkind, onIdentifier, decide_eq_false hpoint, decide_eq_false hpoint', decide_eq_false hthis, hnone]
  simp only [Bool.or_self, Bool.false_and, Bool.false_eq_true, if_false, ite_self]

/-- A word that begins a declaration of variables. -/
theorem goes_declaring {w : String} {s : Sym} (hw : Written (codeWord w :: s :: ss) v.rest rest) (hdeclares : w ∈ declarationWords)
    (hs : s.lexeme.2 ≠ "enum") (hbefore : ∀ m, v.said.head? = some m → m.2 ∈ boundaries) :
    ∃ us, Written (s :: ss) us rest ∧
      Goes v ((v.after [codeWord w] us).declaring true).tightly := by
  obtain ⟨t, us, _, ht, hshape, hword, hrest, hgo⟩ := goes_to_symbol hw
  obtain ⟨hkind, htext⟩ := lexeme_eq_word hword
  have hwords : ∀ w ∈ declarationWords, w ≠ "this" ∧ w ∉ typeWords := by decide
  obtain ⟨hthis, htype⟩ := hwords w hdeclares
  refine ⟨us, hrest, hgo _ fun e he => ⟨keep { e with frame := { e.frame with declaring := true } } t us, ?_,
    he.keep ht hshape hword nofun rfl (by rw [he.frame]; rfl) rfl he.ahead⟩⟩
  have hpoint : e.previousText ≠ some "." := he.previousText_ne_of_mem hbefore (by decide)
  have hpoint' : e.previousText ≠ some "?." := he.previousText_ne_of_mem hbefore (by decide)
  have henum : headIn (significant us) ["enum"] = false := by
    rw [headIn_of_written hrest, List.contains_eq_mem, decide_eq_false_iff_not, List.mem_singleton]
    exact hs
  have hnone := onStatement_eq_none (e := e) us (fun hmem => (htext ▸ htype) (mem_typeWords_of_mem_statementWords hmem))
    fun _ => henum
  rw [step_of_word hkind (htext ▸ hthis) hpoint hpoint' hnone, onWord_eq_keep us (htext ▸ htype), noteWord_eq (htext ▸ htype), htext,
    List.contains_iff_mem.mpr hdeclares, Bool.or_true]

/-- Before a name the word `class` begins a class. -/
theorem step_of_class {e : Eraser} {t : Token} {ts : List Token} (ht : t.lexeme = word "class") (hpoint : e.previousText ≠ some ".")
    (hpoint' : e.previousText ≠ some "?.") (hname : headIsName (significant ts) = true) :
    step e t ts = .ok (keep { e with classAhead := true } t ts) := by
  obtain ⟨hkind, htext⟩ := lexeme_eq_word ht
  have hnone := onStatement_eq_none (e := e) ts (htext ▸ by decide) fun hc => absurd (htext ▸ hc) (by decide)
  rw [step_of_word hkind (htext ▸ by decide) hpoint hpoint' hnone, onWord, htext, noteWord, hname]
  rfl

/-- The word `class`, behind which a name stands. -/
theorem goes_class {s : Sym} (hw : Written (codeWord "class" :: s :: ss) v.rest rest) (hs : s.lexeme.1 = .identifier)
    (hbefore : ∀ m, v.said.head? = some m → m.2 ∈ boundaries) :
    ∃ us, Written (s :: ss) us rest ∧ Goes v ((v.after [codeWord "class"] us).expecting true).tightly := by
  obtain ⟨t, us, _, ht, hshape, hword, hrest, hgo⟩ := goes_to_symbol hw
  refine ⟨us, hrest, hgo _ fun e he => ⟨keep { e with classAhead := true } t us, ?_,
    he.keep ht hshape hword nofun rfl he.frame rfl rfl⟩⟩
  have hname : headIsName (significant us) = true := by rw [headIsName_of_written hrest, hs]; rfl
  exact step_of_class hword (he.previousText_ne_of_mem hbefore (by decide)) (he.previousText_ne_of_mem hbefore (by decide)) hname

/-- `export` stays where no clause follows it. -/
theorem goes_exportWord {s : Sym} {us : List Token} (hw : Written [s] v.rest us) (hs : s.lexeme = word "export")
    (hclause : headIn (significant us) ["\x7b", "*"] = false) (hclause' : headIn (significant (significant us).tail) ["\x7b", "*"] = false)
    (hbefore : ∀ m, v.said.head? = some m → m.2 ∈ boundaries) : Goes v (v.after [codeWord "export"] us).tightly := by
  obtain ⟨t, us, _, ht, hshape, hword, hnil, hgo⟩ := goes_to_symbol hw
  obtain rfl := Written.nil_iff.mp hnil
  rw [hs] at hword
  obtain ⟨hkind, htext⟩ := lexeme_eq_word hword
  refine hgo _ fun e he => ⟨keep e t us, ?_, he.keep ht hshape hword nofun rfl he.frame rfl he.ahead⟩
  have hpoint : e.previousText ≠ some "." := he.previousText_ne_of_mem hbefore (by decide)
  have hpoint' : e.previousText ≠ some "?." := he.previousText_ne_of_mem hbefore (by decide)
  have hnone : onStatement e t us = .ok none := by
    unfold onStatement
    simp only [htext, hclause, hclause', String.reduceEq, decide_false, decide_true, Bool.false_and, Bool.and_false, Bool.or_self,
      Bool.false_eq_true, if_false]
  rw [step_of_word hkind (htext ▸ by decide) hpoint hpoint' hnone, onWord, htext]
  rfl

/-- Two words are no clause. -/
theorem headIn_of_words {s₁ s₂ : Sym} {us : List Token} (hw : Written (s₁ :: s₂ :: ss) us rest) (hs₁ : s₁.lexeme.1 = .identifier)
    (hs₂ : s₂.lexeme.1 = .identifier) :
    headIn (significant us) ["\x7b", "*"] = false ∧ headIn (significant (significant us).tail) ["\x7b", "*"] = false := by
  obtain ⟨t₁, us₁, hnext, _, _, _, hrest₁⟩ := hw.significant
  refine ⟨headIn_of_word hw (by rw [hs₁]; nofun) (by decide), ?_⟩
  rw [hnext]
  exact headIn_of_word hrest₁ (by rw [hs₂]; nofun) (by decide)

/-- The word `export`, behind which a declaration begins. -/
theorem goes_export {s s₁ s₂ : Sym} (hw : Written (s :: s₁ :: s₂ :: ss) v.rest rest) (hs : s.lexeme = word "export")
    (hs₁ : s₁.lexeme.1 = .identifier) (hs₂ : s₂.lexeme.1 = .identifier)
    (hbefore : ∀ m, v.said.head? = some m → m.2 ∈ boundaries) :
    ∃ us, Written (s₁ :: s₂ :: ss) us rest ∧ Goes v (v.after [codeWord "export"] us).tightly := by
  obtain ⟨us, hexport, hothers⟩ : ∃ us, Written [s] v.rest us ∧ Written (s₁ :: s₂ :: ss) us rest := Written.split hw
  obtain ⟨hclause, hclause'⟩ := headIn_of_words hothers hs₁ hs₂
  exact ⟨us, hothers, goes_exportWord hexport hs hclause hclause' hbefore⟩

/-! ## Brackets -/

/-- The view behind a bracket that opens. Only the body of a class opens with a class ahead. -/
def View.inside (v : View) (b : Bracket) (rest : List Token) : View :=
  ⟨mark b.opener :: v.said, Frame.opening b (v.said.head?.map (·.2)) v.ahead, v.frame :: v.outer, false, rest, false, v.source⟩

theorem goes_opener {b : Bracket} (hw : Written (codeMark b.opener :: ss) v.rest rest) (hahead : v.ahead = true → b = .curly) :
    ∃ us, Written ss us rest ∧ Goes v (v.inside b us) := by
  obtain ⟨t, us, _, ht, hshape, hs, hrest, hgo⟩ := goes_to_symbol hw
  obtain ⟨hkind, htext⟩ := lexeme_eq_mark hs
  have hbody : (b == .curly && v.ahead) = v.ahead := by
    cases h : v.ahead with
    | false => rw [Bool.and_false]
    | true => rw [hahead h]; rfl
  refine ⟨us, hrest, (hgo (v.inside b us).tightly fun e he => ⟨onOpening e b t us, ?_, ?_⟩).trans (Goes.loose _)⟩
  · have hslash : t.text ∉ ["/", "/="] := by rw [htext]; cases b <;> decide
    rw [step_of_other hkind hslash, onMark_of_opener htext]
  · have hclose : mark b.opener ≠ mark ")" := by cases b <;> nofun
    have hahead' : e.classAhead = v.ahead := he.ahead
    exact {
      said := by
        show lexemes (t :: e.kept) = mark b.opener :: v.said
        rw [lexemes_cons_of_not ht, he.said, hs]
        rfl
      shaped := List.forall_mem_cons.mpr ⟨hshape, he.shaped⟩
      frame := by
        show Frame.opening b e.previousText (b == .curly && e.classAhead) = Frame.opening b (v.said.head?.map (·.2)) v.ahead
        rw [he.previousText, hahead', hbody]
        rfl
      outer := by
        show e.frame :: e.outer = v.frame :: v.outer
        rw [he.frame, he.outer]
        rfl
      ahead := by
        show (e.classAhead && !(b == .curly && e.classAhead)) = false
        rw [hahead', hbody, Bool.and_not_self]
      rest := rfl
      closed := fun hm => absurd (Option.some.inj hm) hclose
      tight := fun _ => ⟨t, e.kept, rfl, ht⟩
      source := he.source_of_keep }

/-- The bracket that is open closes. -/
theorem goes_closer {b : Bracket} (hw : Written (codeMark b.closer :: ss) v.rest rest) {f : Frame} {outer : List Frame}
    (hframe : v.frame.bracket = some b) (houter : v.outer = f :: outer) :
    ∃ us, Written ss us rest ∧ Goes v ⟨mark b.closer :: v.said, f, outer, v.ahead, us, true, v.source⟩ := by
  obtain ⟨t, us, _, ht, hshape, hs, hrest, hgo⟩ := goes_to_symbol hw
  obtain ⟨hkind, htext⟩ := lexeme_eq_mark hs
  refine ⟨us, hrest, hgo _ fun e he => ⟨keep { e with frame := f, outer, closed := some e.frame } t us, ?_, ?_⟩⟩
  · have hother : t.text ∉ ["/", "/=", "?", "!", ":", "<"] := by rw [htext]; cases b <;> decide
    simp only [List.mem_cons, List.not_mem_nil, or_false, not_or] at hother
    obtain ⟨h₁, h₂, h₃, h₄, h₅, h₆⟩ := hother
    have hbracket : e.frame.bracket = some b := by rw [he.frame]; exact hframe
    have hopen : e.outer = f :: outer := he.outer.trans houter
    rw [step_of_other hkind (by simp only [List.mem_cons, h₁, h₂, List.not_mem_nil, or_self, not_false_eq_true]), onMark,
      if_neg h₃, decide_eq_false h₄, Bool.false_and, if_neg (by nofun), if_neg h₅, if_neg h₆, htext, opened?_closer,
      Bracket.closed?_closer]
    simp only [onClosing, hopen, hbracket, if_true]
  · exact {
      said := by
        show lexemes (t :: e.kept) = mark b.closer :: v.said
        rw [lexemes_cons_of_not ht, he.said, hs]
        rfl
      shaped := List.forall_mem_cons.mpr ⟨hshape, he.shaped⟩
      frame := rfl
      outer := rfl
      ahead := he.ahead
      rest := rfl
      closed := fun hm => by
        refine ⟨e.frame, rfl, ?_⟩
        have hround : b = .round := by
          have hb : b.closer = ")" := (lexeme_eq_mark (t := ⟨.punctuation, b.closer, 0, .first⟩) (Option.some.inj hm)).2
          cases b with
          | round => rfl
          | square => nomatch hb
          | curly => nomatch hb
        rw [Frame.isRound, he.frame, show (v.before (t :: us)).frame = v.frame from rfl, hframe, hround]
        rfl
      tight := fun _ => ⟨t, e.kept, rfl, ht⟩
      source := he.source_of_keep }

/-- A pair of brackets, where the walk gets through what stands between them. -/
theorem goes_bracketed {b : Bracket} (hw : Written (bracketed b ss) v.rest rest) (hahead : v.ahead = true → b = .curly)
    (hinside : ∀ us mid, Written ss us mid → (lexemes mid).head? = some (mark b.closer) →
      Goes (v.inside b us) ((v.inside b us).after ss mid)) :
    Goes v ((v.after (bracketed b ss) rest).expecting false).tightly := by
  have hw : Written (codeMark b.opener :: (ss ++ [codeMark b.closer])) v.rest rest := hw
  obtain ⟨us, hw, hopen⟩ := goes_opener hw hahead
  obtain ⟨mid, hfirst, hlast⟩ := hw.split
  obtain ⟨us', hw', hclose⟩ :=
    goes_closer (v := (v.inside b us).after ss mid) (f := v.frame) hlast rfl rfl
  rw [Written.nil_iff] at hw'
  subst hw'
  have hmid : (lexemes mid).head? = some (mark b.closer) := by rw [hlast.lexemes_eq]; rfl
  have hsaid : (said (bracketed b ss)).reverse ++ v.said = mark b.closer :: ((said ss).reverse ++ (mark b.opener :: v.said)) := by
    simp only [bracketed, codeMark, List.cons_append, said_code_cons, said_append, said_nil, List.reverse_cons, List.reverse_append,
      List.reverse_nil, List.nil_append, List.append_assoc]
  have hend : ((v.after (bracketed b ss) us').expecting false).tightly =
      ⟨mark b.closer :: ((v.inside b us).after ss mid).said, v.frame, v.outer, ((v.inside b us).after ss mid).ahead, us', true, v.source⟩ := by
    simp only [View.after, View.expecting, View.tightly, View.inside, hsaid]
  rw [hend]
  exact hopen.trans ((hinside us mid hfirst hmid).trans hclose)

/-- A pair of brackets where no class is ahead. -/
theorem goes_group {b : Bracket} (hw : Written (bracketed b ss) v.rest rest) (hahead : v.ahead = false)
    (hinside : ∀ us mid, Written ss us mid → (lexemes mid).head? = some (mark b.closer) →
      Goes (v.inside b us) ((v.inside b us).after ss mid)) : Goes v (v.after (bracketed b ss) rest).tightly := by
  have h := goes_bracketed hw (fun h => absurd (hahead.symm.trans h) (by decide)) hinside
  have hend : (v.after (bracketed b ss) rest).expecting false = v.after (bracketed b ss) rest := by
    rw [View.expecting, ← show (v.after (bracketed b ss) rest).ahead = false from hahead]
  rw [hend] at h
  exact h

end Kept

end ScriptLoader.Syntax
