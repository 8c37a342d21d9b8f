import Mathlib
import ScriptLoader.Proofs.Core.Statements

/-!
# Erasing a core program

A program of the core language, written down with blanks and comments wherever none is forbidden, is erased without a refusal, and what
is kept of it is its code (`erase_core`).
-/

namespace ScriptLoader.Syntax

/-- The view at the start of a source. -/
def View.atStart (ts : List Token) : View := ⟨[], .top, [], false, ts, false, ts⟩

/-- The view at the end of a source, of which this code was kept. -/
def View.atEnd (ts : List Token) (ms : List Lexeme) : View := ⟨ms.reverse, .top, [], false, [], false, ts⟩

/-- At the start of a source a statement may stand. -/
theorem clear_atStart (ts : List Token) : Clear [";", "\x7b", "\x7d"] (View.atStart ts) := ⟨⟨rfl, rfl, fun _ => rfl, nofun⟩, rfl, nofun⟩

/-- Where the walk gets through a source, it succeeds. -/
theorem walk_of_goes {ts : List Token} {ms : List Lexeme} (h : Goes (View.atStart ts) (View.atEnd ts ms)) :
    ∃ e, Eraser.walk (Eraser.start ts) = .ok e ∧ e.kept.reverse.Sublist ts ∧ lexemes e.kept.reverse = ms := by
  obtain ⟨e, hrun, he⟩ := h (Eraser.start ts) ⟨rfl, nofun, rfl, rfl, rfl, rfl, nofun, nofun, List.Sublist.refl ts⟩
  refine ⟨e, ?_, (List.sublist_append_left _ _).trans he.source, ?_⟩
  · rw [hrun.walk_eq, Eraser.walk_of_nil he.rest, Eraser.finish, he.frame]
    rfl
  · rw [lexemes_reverse, he.said]
    exact List.reverse_reverse ms

/-- Where the walk gets through a source, erasing it succeeds. The output is the text of tokens of the source, in their order, and without
blanks and comments these are the code. -/
theorem erase_of_goes {content : String} {ts : List Token} {ms : List Lexeme} (hlex : tokenize content.toList 0 .first = .ok ts)
    (h : Goes (View.atStart ts) (View.atEnd ts ms)) :
    ∃ kept specifiers, erase content = .ok ⟨String.join (kept.map (·.text)), specifiers⟩ ∧ kept.Sublist ts ∧ lexemes kept = ms := by
  obtain ⟨e, hwalk, hkept, hsaid⟩ := walk_of_goes h
  refine ⟨e.kept.reverse, e.specifiers.reverse, ?_, hkept, hsaid⟩
  rw [erase, hlex]
  simp only [hwalk, Except.map]
  rfl

/-- Erasing some statements that the walk gets through succeeds, and what is kept is their code. -/
theorem erase_of_passes {content : String} {ts rest : List Token} {ss : List Sym} (hlex : tokenize content.toList 0 .first = .ok ts)
    (h : Passes .statements ss) (hw : Written ss ts rest) (hrest : ∀ t ∈ rest, t.isTrivia = true) :
    ∃ kept specifiers, erase content = .ok ⟨String.join (kept.map (·.text)), specifiers⟩ ∧ kept.Sublist ts ∧
      lexemes kept = said ss := by
  have hshape := shaped_of_lexFrom (lexFrom_of_tokenize hlex)
  have hblanks : ∀ t ∈ rest, t.isTrivia = true ∧ t.Shaped := fun t ht => ⟨hrest t ht, hshape t (hw.suffix.mem ht)⟩
  have hgo : Goes (View.atStart ts) (((View.atStart ts).after ss rest).before []) :=
    (h _ rest hw (clear_atStart ts)).trans (goes_blanks hblanks (List.append_nil rest).symm rfl)
  refine erase_of_goes hlex ?_
  rw [View.atEnd, ← List.append_nil (said ss).reverse]
  exact hgo

/-- Erasing a core program succeeds. The output is the text of tokens of the source, in their order, and without blanks and comments these
are the code of the program. -/
theorem erase_core {content : String} {ts rest : List Token} {ss : List Sym} (hlex : tokenize content.toList 0 .first = .ok ts)
    (hcore : Core .statements ss) (hw : Written ss ts rest) (hrest : ∀ t ∈ rest, t.isTrivia = true) :
    ∃ kept specifiers, erase content = .ok ⟨String.join (kept.map (·.text)), specifiers⟩ ∧ kept.Sublist ts ∧
      lexemes kept = said ss :=
  erase_of_passes hlex (passes_of_core hcore) hw hrest

theorem erase_core_arrow : ∃ kept specifiers,
    erase "const f = (x?: T): T => x as U;" = .ok ⟨String.join (kept.map (·.text)), specifiers⟩ ∧
      lexemes kept = [word "const", word "f", mark "=", mark "(", word "x", mark ")", mark "=>", word "x", mark ";"] := by
  have hf : Ordinary "f" := by unfold Ordinary; decide
  have hx : Ordinary "x" := by unfold Ordinary; decide
  have htype : ∀ name ∈ ["T", "U"], TypeText .whole false false [word name] := by
    intro name hname
    have hall : ∀ name ∈ ["T", "U"], name ∉ typePrefixes := by decide
    have hbased := TypeText.based (.named (.plain (hall name hname) .nil)) .nil
    exact .whole (.operand (.simple hbased))
  have hparameter : Binding .parameter _ := .parameter (.inl rfl) hx (.inr rfl) (.some (htype "T" (by decide)) nofun)
  have harrow : Core (.arrow false) _ :=
    .arrowTyped (.signature .none (.one (.bound hparameter))) (.some (htype "T" (by decide)) fun _ => rfl)
  have hvalue : Core (.expression false false true) _ :=
    .arrowValue harrow (.cast (.value (.name hx)) (List.mem_cons_self) (htype "U" (by decide)) rfl)
  have hprogram : Core .statements _ :=
    .moreStatements (.declared (.declaration (w := "const") (by decide) (.one (.defaulted (.declarator hf .none) hvalue)))) .noStatements
  obtain ⟨ss, hcore, hglued, hsymbols, hsaid⟩ : ∃ ss, Core .statements ss ∧ (∀ s ∈ ss, s.glued = false) ∧
      ss.map Sym.lexeme = [word "const", word "f", mark "=", mark "(", word "x", mark "?", mark ":", word "T", mark ")", mark ":",
        word "T", mark "=>", word "x", word "as", word "U", mark ";"] ∧
      said ss = [word "const", word "f", mark "=", mark "(", word "x", mark ")", mark "=>", word "x", mark ";"] :=
    ⟨_, hprogram, by decide, rfl, rfl⟩
  obtain ⟨ts, hlex, hlexemes⟩ : ∃ ts, tokenize "const f = (x?: T): T => x as U;".toList 0 .first = .ok ts ∧
      lexemes ts = ss.map Sym.lexeme := by
    rw [hsymbols]
    refine Eraser.ok_of_map ?_
    cbv
  obtain ⟨rest, hw, hrest⟩ := written_of_lexemes hglued (shaped_of_lexFrom (lexFrom_of_tokenize hlex)) hlexemes
  obtain ⟨kept, specifiers, herase, _, hkept⟩ := erase_core hlex hcore hw fun t ht => (hrest t ht).1
  exact ⟨kept, specifiers, herase, hkept.trans hsaid⟩

/-! ## Core programs with other declarations -/

/-- The tokens are statements of the core language and declarations that stand between tokens that `Declared` relates, and `ms` is the code
of the statements. -/
inductive ProgramWith (Declared : List Token → List Token → Prop) : List Token → List Lexeme → Prop where
  | done {ts : List Token} (h : ∀ t ∈ ts, t.isTrivia = true) : ProgramWith Declared ts []
  | statement {ss : List Sym} {ts mid : List Token} {ms : List Lexeme} (h : Core .statement ss) (hw : Written ss ts mid)
      (hothers : ProgramWith Declared mid ms) : ProgramWith Declared ts (said ss ++ ms)
  | declaration {ts rest : List Token} {ms : List Lexeme} (h : Declared ts rest) (hothers : ProgramWith Declared rest ms) :
      ProgramWith Declared ts ms

section ProgramWith

variable {Declared : List Token → List Token → Prop} {ts : List Token} {ms : List Lexeme}

theorem goes_programWith {v : View} (h : ProgramWith Declared ts ms)
    (hdeclared : ∀ ts rest, Declared ts rest → rest <:+ ts ∧
      ∀ v : View, v.rest = ts → Clear [";", "\x7b", "\x7d"] v → Goes v (v.before rest))
    (hv : v.rest = ts) (hshape : ∀ t ∈ ts, t.Shaped) (hclear : Clear [";", "\x7b", "\x7d"] v) :
    Goes v { v.before [] with said := ms.reverse ++ v.said } := by
  induction h generalizing v with
  | @done ts h =>
    have hblanks : ∀ t ∈ ts, t.isTrivia = true ∧ t.Shaped := fun t ht => ⟨h t ht, hshape t ht⟩
    exact (Goes.loose v).trans (goes_blanks hblanks (hv.trans (List.append_nil ts).symm) rfl)
  | @statement ss ts mid ms h hw _ ih =>
    have hstatement : Goes v (v.after ss mid) := passes_of_core h v mid (hv ▸ hw) hclear
    have hothers := ih rfl (fun t ht => hshape t (hw.suffix.mem ht)) (hclear.next (ends_of_core h) mid)
    refine hstatement.trans ?_
    rw [List.reverse_append, List.append_assoc]
    exact hothers
  | @declaration ts rest ms h _ ih =>
    obtain ⟨hsuffix, hgoes⟩ := hdeclared ts rest h
    have hclear' : Clear [";", "\x7b", "\x7d"] (v.before rest) := ⟨hclear.open.after [] rest, hclear.declaring, hclear.before⟩
    exact (hgoes v hv hclear).trans (ih rfl (fun t ht => hshape t (hsuffix.mem ht)) hclear')

/-- Where all the declarations are erased, erasing the program succeeds, and what is kept is the code of the statements: nothing of the
declarations, and all of what stands before and behind them. -/
theorem erase_of_programWith {content : String} (hlex : tokenize content.toList 0 .first = .ok ts) (h : ProgramWith Declared ts ms)
    (hdeclared : ∀ ts rest, Declared ts rest → rest <:+ ts ∧
      ∀ v : View, v.rest = ts → Clear [";", "\x7b", "\x7d"] v → Goes v (v.before rest)) :
    ∃ kept specifiers, erase content = .ok ⟨String.join (kept.map (·.text)), specifiers⟩ ∧ kept.Sublist ts ∧ lexemes kept = ms := by
  have hgo := goes_programWith h hdeclared rfl (shaped_of_lexFrom (lexFrom_of_tokenize hlex)) (clear_atStart ts)
  refine erase_of_goes hlex ?_
  rw [View.atEnd, ← List.append_nil ms.reverse]
  exact hgo

end ProgramWith

end ScriptLoader.Syntax
