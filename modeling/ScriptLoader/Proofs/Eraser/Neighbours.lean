import ScriptLoader.Proofs.Core.Dropping
import ScriptLoader.Proofs.Eraser.Growth
import ScriptLoader.Proofs.Eraser.ModuleSequence
import ScriptLoader.Proofs.Eraser.Subsequence

/-!
# The neighbours of a declaration that is dropped

A declaration of types ends the expression before it, if only by beginning with a word, and it is dropped with its semicolon. What is
kept next then stands behind the expression. Where that begins with a bracket, a point, a comma, a template or an operator, the language
reads both as one expression, whatever line breaks are between them (`dropped_joins_iff`).
-/

namespace ScriptLoader.Syntax

/-- The lexeme ends an expression and no statement: a literal, a closing bracket, or a word that is no keyword. -/
def concludes (m : Lexeme) : Bool := mayEnd m && !Eraser.boundaries.contains m.2

/-- Behind an expression, even on another line, the expression goes on with the lexeme. -/
def joins (m : Lexeme) : Bool :=
  m.1 == .template ||
    [mark "(", mark "[", mark ".", mark ",", mark "+", mark "-", mark "*", mark "/"].contains m

namespace Eraser

/-! ## Declarations that are dropped -/

/-- The word begins a declaration of types: an interface, a type alias, an ambient declaration, or an import or export of types alone. -/
def beginsTypes (t : Token) (ts : List Token) : Bool :=
  let next := significant ts
  let afterNext := significant next.tail
  (t.text = "interface" && headIsName next) || (t.text = "type" && headIsName next && headIn afterNext ["=", "<"]) ||
    (t.text = "declare" && headIsName next) || (t.text = "import" && importsType ts) ||
    (t.text = "export" && headIn next ["type"] && headIn afterNext ["\x7b", "*"])

/-- The walk drops a declaration of types. -/
inductive Drops : Eraser → Eraser → Prop where
  | intro {e : Eraser} {t : Token} {ts : List Token} {e' : Next (t :: ts)} (hrest : e.rest = t :: ts) (hkind : t.kind = .identifier)
      (hbegins : e.BeginsStatement) (htypes : beginsTypes t ts = true) (hstep : step e t ts = .ok e') : Drops e e'.1

theorem Drops.steps {e e' : Eraser} (h : Drops e e') : Steps e e' := by
  obtain ⟨hrest, _, _, _, hstep⟩ := h
  exact .intro hrest hstep

/-- The next word of an import of types is `type`. -/
theorem headIn_of_importsType {ts : List Token} (h : importsType ts = true) : headIn (significant ts) ["(", "."] = false := by
  unfold importsType at h
  simp only [Bool.and_eq_true] at h
  have htype := h.1
  cases hts : significant ts with
  | nil => rfl
  | cons t us =>
    rw [hts] at htype
    have htext : t.text = "type" := by simpa [headIn] using htype
    rw [headIn, htext]
    decide

/-- Such a declaration is skipped as a whole, perhaps with an `export` before it. -/
theorem onStatement_of_beginsTypes {e : Eraser} {t : Token} {ts : List Token} (h : beginsTypes t ts = true) :
    ∃ (x : Except Refusal (Tail (t :: ts))) (e₁ : Eraser), (e₁ = e ∨ e₁ = e.retractExport) ∧
      onStatement e t ts = (x.map (skipTo e₁)).map some := by
  simp only [beginsTypes, Bool.or_eq_true, Bool.and_eq_true, decide_eq_true_eq] at h
  rcases h with (((⟨htext, hname⟩ | ⟨⟨htext, hname⟩, hafter⟩) | ⟨htext, hname⟩) | ⟨htext, himports⟩) | ⟨⟨htext, htype⟩, hclause⟩
  · refine ⟨(skipInterface ts).map (·.afterHead), e.retractExport, .inr rfl, ?_⟩
    unfold onStatement
    simp only [htext, hname, decide_true, Bool.true_and, if_true]
    cases skipInterface ts <;> rfl
  · refine ⟨(skipTypeAlias (Rest.whole ts).significant.tail.tokens).map fun r => ((Rest.whole ts).significant.tail.andThen r).afterHead,
      e.retractExport, .inr rfl, ?_⟩
    unfold onStatement
    simp only [htext, hname, hafter, String.reduceEq, decide_false, decide_true, Bool.false_and, Bool.true_and, Bool.false_eq_true,
      if_false, if_true]
    cases skipTypeAlias (Rest.whole ts).significant.tail.tokens <;> rfl
  · refine ⟨(skipStatement 0 ts).map (·.afterHead), e.retractExport, .inr rfl, ?_⟩
    unfold onStatement
    simp only [htext, hname, String.reduceEq, decide_false, decide_true, Bool.false_and, Bool.true_and, Bool.false_eq_true, if_false,
      if_true]
    cases skipStatement 0 ts <;> rfl
  · refine ⟨.ok (skipModuleStatement 0 ts).afterHead, e, .inl rfl, ?_⟩
    unfold onStatement
    simp only [htext, himports, headIn_of_importsType himports, String.reduceEq, decide_false, decide_true, Bool.false_and,
      Bool.true_and, Bool.or_self, Bool.not_false, Bool.false_eq_true, if_false, if_true]
    rfl
  · refine ⟨.ok (skipModuleStatement 0 ts).afterHead, e, .inl rfl, ?_⟩
    unfold onStatement
    simp only [htext, htype, hclause, String.reduceEq, decide_false, decide_true, Bool.false_and, Bool.true_and, Bool.or_self,
      Bool.false_eq_true, if_false, if_true]
    rfl

/-- What was kept stays, but for an `export` before an interface, an alias or an ambient declaration. -/
theorem Drops.kept {e e' : Eraser} (h : Drops e e') : e'.kept = e.kept ∨ e'.kept = e.retractExport.kept := by
  obtain ⟨hrest, hkind, hbegins, htypes, hstep⟩ := h
  have hthis : ∀ {t : Token} {ts : List Token}, beginsTypes t ts = true → t.text ≠ "this" := by
    intro t ts h htext
    simp [beginsTypes, htext] at h
  obtain ⟨x, e₁, hfrom, hx⟩ := onStatement_of_beginsTypes htypes
  rw [step_of_statement hbegins hkind (hthis htypes) hx] at hstep
  obtain ⟨r, _, rfl⟩ := ok_of_map hstep
  rcases hfrom with rfl | rfl
  · exact .inl rfl
  · exact .inr rfl

/-- A declaration behind the end of an expression stands at the start of a line, or behind `export`. -/
theorem Drops.broke {e e' : Eraser} (h : Drops e e') {a : Lexeme} (ha : (lexemes e'.kept).head? = some a) (hends : concludes a = true) :
    e.brokeLine = true ∨ e.previousText = some "export" := by
  by_cases hexport : e.previousText = some "export"
  · exact .inr hexport
  have hsame : e'.kept = e.kept := by
    rcases h.kept with hkept | hkept
    · exact hkept
    · rw [hkept, retractExport, if_neg hexport]
  rw [hsame] at ha
  obtain ⟨_, _, hbegins, _, _⟩ := h
  have hstart := hbegins.start
  rw [atStatementStart, previousText_eq, ha] at hstart
  simp only [concludes, Bool.and_eq_true, Bool.not_eq_true'] at hends
  have hbroke : (boundaries.contains a.2 || e.brokeLine) = true := hstart
  rw [hends.2, Bool.false_or] at hbroke
  exact .inl hbroke

/-! ## What is kept next -/

theorem expressionEnded_of_head {e : Eraser} {a : Lexeme} (ha : (lexemes e.kept).head? = some a) (hends : concludes a = true) :
    e.expressionEnded = true := by
  rw [expressionEnded_eq, keptMeaning]
  obtain ⟨t, us, hs, _, rfl⟩ := exists_of_head?_lexemes ha
  rw [hs]
  exact (Bool.and_eq_true_iff.mp hends).1

/-- Behind an expression, what goes on with it is kept. -/
theorem step_of_joins {e : Eraser} {t : Token} {ts : List Token} (hjoins : joins t.lexeme = true) (hended : e.expressionEnded = true) :
    ∃ e' : Next (t :: ts), step e t ts = .ok e' ∧ e'.1.kept = t :: e.kept := by
  rw [joins, Bool.or_eq_true, beq_iff_eq, List.contains_iff_mem] at hjoins
  rcases hjoins with htemplate | hmark
  · exact ⟨keep e t ts, step_of_literal (by rw [show t.kind = .template from htemplate]; rfl), rfl⟩
  have hkind : t.kind = .punctuation := by
    have hall : ∀ m ∈ [mark "(", mark "[", mark ".", mark ",", mark "+", mark "-", mark "*", mark "/"], m.1 = .punctuation := by decide
    exact hall t.lexeme hmark
  rw [step_of_mark hkind fun _ => hended]
  by_cases hopen : ∃ b : Bracket, t.text = b.opener
  · obtain ⟨b, hb⟩ := hopen
    exact ⟨onOpening e b t ts, onMark_of_opener hb, rfl⟩
  · refine ⟨keep e t ts, onMark_of_inert ?_, rfl⟩
    have hall : ∀ m ∈ [mark "(", mark "[", mark ".", mark ",", mark "+", mark "-", mark "*", mark "/"],
        m.2 = Bracket.round.opener ∨ m.2 = Bracket.square.opener ∨ isInert (mark m.2) = true := by decide
    rcases hall t.lexeme hmark with h | h | h
    · exact absurd ⟨_, h⟩ hopen
    · exact absurd ⟨_, h⟩ hopen
    · exact h

theorem ne_export_of_joins {content : List Char} {e : Eraser} (h : Whole content e) {b : Lexeme} (hb : (lexemes e.rest).head? = some b)
    (hjoins : joins b = true) : b.2 ≠ "export" := by
  intro hexport
  obtain ⟨t, us, hs, _, rfl⟩ := exists_of_head?_lexemes hb
  have ht : t ∈ e.buffer := List.mem_append_right _ ((significant_suffix e.rest).mem (hs ▸ List.mem_cons_self))
  have hkind : t.kind = .identifier ∨ t.kind = .regex := (h.shaped ht).imp (·.kind_of_export hexport) id
  have hjoins : joins (t.kind, "export") = true := hexport ▸ hjoins
  rcases hkind with hkind | hkind <;> rw [hkind] at hjoins <;> nomatch hjoins

/-- The walk gets behind it. -/
theorem reaches_of_joins {e : Eraser} {a b : Lexeme} (ha : (lexemes e.kept).head? = some a) (hends : concludes a = true)
    (hb : (lexemes e.rest).head? = some b) (hjoins : joins b = true) :
    ∃ e', Reaches e e' ∧ lexemes e'.kept = b :: lexemes e.kept := by
  obtain ⟨blanks, hrest, hblanks⟩ := eq_trivia_append_significant e.rest
  obtain ⟨e₁, hgets⟩ := gets_gap hblanks hrest
  have hkept : lexemes e₁.kept = lexemes e.kept := by
    rw [hgets.kept, lexemes_append, lexemes_reverse, lexemes, meaning_of_trivia hblanks]
    rfl
  obtain ⟨t, us, hs, ht, rfl⟩ := exists_of_head?_lexemes hb
  have hended : e₁.expressionEnded = true := expressionEnded_of_head (hkept ▸ ha) hends
  obtain ⟨e₂, hstep, hmore⟩ : ∃ e₂ : Next (t :: us), step e₁ t us = .ok e₂ ∧ e₂.1.kept = t :: e₁.kept := step_of_joins hjoins hended
  refine ⟨e₂.1, hgets.run.trans (.single (.intro (hgets.rest.trans hs) hstep)), ?_⟩
  rw [hmore, lexemes_cons_of_not ht, hkept]

/-- Let a declaration be dropped behind the end of an expression, at the start of a line or behind `export`. The code goes on from this
expression with a bracket, a point, a comma, a template or an operator exactly where the walk, behind the declaration, comes to such a
token before it has kept another: where the source goes on with it, perhaps behind more that is dropped. -/
theorem dropped_joins_iff {content : String} {ts : List Token} {e e' last : Eraser}
    (hlex : tokenize content.toList 0 .first = .ok ts) (hwalk : walk (start ts) = .ok last) (hrun : Reaches (start ts) e)
    (hdrop : Drops e e') {a : Lexeme} (ha : (lexemes e'.kept).head? = some a) (hends : concludes a = true) :
    (e.brokeLine = true ∨ e.previousText = some "export") ∧
      ∃ behind, lexemes last.kept.reverse = (lexemes e'.kept).reverse ++ behind ∧
        ∀ b, joins b = true → (behind.head? = some b ↔
          ∃ e₁, Reaches e' e₁ ∧ lexemes e₁.kept = lexemes e'.kept ∧ (lexemes e₁.rest).head? = some b) := by
  refine ⟨hdrop.broke ha hends, ?_⟩
  obtain ⟨said, hsaid⟩ := List.head?_eq_some_iff.mp ha
  have hother : a.2 ≠ "export" := by
    intro hexport
    simp [concludes, hexport, boundaries] at hends
  have hrun' : Reaches (start ts) e' := hrun.trans (.single hdrop.steps)
  have hend {e₁ : Eraser} (hmore : Reaches e' e₁) : Reaches e₁ last :=
    (reaches_of_walk ((hrun'.trans hmore).walk_eq.symm.trans hwalk)).1
  have hcode : a :: said <:+ lexemes e'.kept := by rw [hsaid]
  obtain ⟨later, hlater⟩ := suffix_of_reaches hother (hend (.refl e')) hcode
  have hbehind {b : Lexeme} : later.reverse.head? = some b ↔ b :: a :: said <:+ lexemes last.kept := by
    rw [← hlater, List.head?_reverse]
    constructor
    · intro hb
      obtain ⟨front, rfl⟩ := List.getLast?_eq_some_iff.mp hb
      exact ⟨front, by rw [List.append_assoc]; rfl⟩
    · rintro ⟨front, hfront⟩
      have hfront : (front ++ [b]) ++ a :: said = later ++ a :: said := by rw [← hfront, List.append_assoc]; rfl
      rw [← List.append_cancel_right hfront, List.getLast?_append, List.getLast?_singleton, Option.some_or]
  refine ⟨later.reverse, ?_, fun b hb => hbehind.trans ⟨fun hkept => ?_, ?_⟩⟩
  · rw [lexemes_reverse, ← hlater, List.reverse_append, hsaid]
  · have hregex : b.1 ≠ .regex := by
      intro hkind
      obtain ⟨kind, text⟩ := b
      obtain rfl : kind = .regex := hkind
      simp [joins] at hb
    rcases exists_kept hother hregex (hend (.refl e')) hcode hkept with hbefore | ⟨e₁, hreach, hsame, hnext⟩
    · rw [hsaid] at hbefore
      have hlen := hbefore.length_le
      simp only [List.length_cons] at hlen
      omega
    · exact ⟨e₁, hreach, hsame.trans hsaid.symm, hnext⟩
  · rintro ⟨e₁, hreach, hsame, hnext⟩
    obtain ⟨e₂, hmore, hkept⟩ := reaches_of_joins (hsame ▸ ha) hends hnext hb
    have hwhole := whole_of_reaches hlex (hrun'.trans hreach)
    refine suffix_of_reaches (ne_export_of_joins hwhole hnext hb) (hend (hreach.trans hmore)) ?_
    rw [hkept, hsame, hsaid]

/-- An interface between two expressions is dropped, and they stay apart. -/
theorem dropped_joins_iff_interface : ∃ (ts : List Token) (e e' last : Eraser),
    tokenize "a\ninterface I \x7b\x7d\nb".toList 0 .first = .ok ts ∧ walk (start ts) = .ok last ∧ Reaches (start ts) e ∧ Drops e e' ∧
      (lexemes e'.kept).head? = some (word "a") ∧ concludes (word "a") = true ∧ (e.brokeLine = true ∨ e.previousText = some "export") ∧
      ∃ behind, lexemes last.kept.reverse = (lexemes e'.kept).reverse ++ behind ∧
        ∀ b, joins b = true → (behind.head? = some b ↔
          ∃ e₁, Reaches e' e₁ ∧ lexemes e₁.kept = lexemes e'.kept ∧ (lexemes e₁.rest).head? = some b) := by
  let name : Token := ⟨.identifier, "a", 0, ⟨1, 1⟩⟩
  let line : Token := ⟨.blank, "\n", 1, ⟨1, 2⟩⟩
  let declares : Token := ⟨.identifier, "interface", 2, ⟨2, 1⟩⟩
  let others : List Token :=
    [⟨.blank, " ", 11, ⟨2, 10⟩⟩, ⟨.identifier, "I", 12, ⟨2, 11⟩⟩, ⟨.blank, " ", 13, ⟨2, 12⟩⟩, ⟨.punctuation, "\x7b", 14, ⟨2, 13⟩⟩,
     ⟨.punctuation, "\x7d", 15, ⟨2, 14⟩⟩, ⟨.blank, "\n", 16, ⟨2, 15⟩⟩, ⟨.identifier, "b", 17, ⟨3, 1⟩⟩]
  let e : Eraser := { start (declares :: others) with passed := [line, name], kept := [line, name] }
  have hlex : tokenize "a\ninterface I \x7b\x7d\nb".toList 0 .first = .ok (name :: line :: declares :: others) := by cbv
  have herase : erase "a\ninterface I \x7b\x7d\nb" = .ok ⟨"a\n\nb", []⟩ := by cbv
  obtain ⟨ts, last, hlex', hwalk, -⟩ := walk_of_erase herase
  obtain rfl : name :: line :: declares :: others = ts := Except.ok.inj (hlex.symm.trans hlex')
  have hrun : Reaches (start (name :: line :: declares :: others)) e := by
    have hname : Steps (start (name :: line :: declares :: others))
        { start (line :: declares :: others) with passed := [name], kept := [name] } := .of_eq rfl rfl rfl
    exact .next hname (.single (.of_eq rfl rfl rfl))
  obtain ⟨e', hstep, hkept⟩ : ∃ e', step e declares others = .ok e' ∧ lexemes e'.1.kept = [word "a"] := ok_of_map (by cbv)
  have hbegins : e.BeginsStatement := ⟨by cbv, by decide, by decide⟩
  have hdrop : Drops e e'.1 := .intro rfl rfl hbegins (by cbv) hstep
  have hhead : (lexemes e'.1.kept).head? = some (word "a") := by rw [hkept]; rfl
  have hjoins := dropped_joins_iff hlex hwalk hrun hdrop hhead (by decide)
  exact ⟨_, e, e'.1, last, hlex, hwalk, hrun, hdrop, hhead, by decide, hjoins⟩

/-- The alias was all that stood between an expression and the brackets behind it: without it, the code is a call. -/
theorem dropped_alias_joins_call :
    erase "a\ntype T = X;\n(b);" = .ok ⟨"a\n\n(b);", []⟩ := by cbv

end Eraser

end ScriptLoader.Syntax
