import ScriptLoader.Proofs.Eraser.Moves
import ScriptLoader.Proofs.Lexer.Lexeme
import ScriptLoader.Proofs.Lexer.Meaning

/-!
# What was kept stays

A step may take blanks and an `export` back from the end of what was kept, and nothing else. So behind any other token the walk only
adds to what is kept (`suffix_of_reaches`). To the modules that were noted it only adds (`specifiers_of_reaches`).
-/

namespace ScriptLoader.Syntax

/-- Only a word reads `export`. -/
theorem Token.Shaped.kind_of_export {t : Token} (h : t.Shaped) (ht : t.text = "export") : t.kind = .identifier := by
  rw [Token.Shaped, ht] at h
  generalize t.kind = k at h ⊢
  cases k with
  | identifier => rfl
  | lineComment =>
    obtain ⟨_, heq, _⟩ := h
    simp at heq
  | blockComment =>
    obtain ⟨_, heq, _⟩ := h
    simp at heq
  | string =>
    obtain ⟨q, _, heq, hq, _⟩ := h
    obtain rfl : 'e' = q := (List.cons.inj heq).1
    exact absurd hq (by decide)
  | template =>
    obtain ⟨_, heq, _⟩ := h
    simp at heq
  | blank => exact absurd (h.2 'e' List.mem_cons_self) (by decide)
  | number =>
    obtain ⟨d, _, heq | heq, hd, _⟩ := h
    · obtain rfl : 'e' = d := (List.cons.inj heq).1
      exact absurd hd (by decide)
    · simp at heq
  | punctuation =>
    rcases h with hmem | ⟨c, _, heq⟩
    · exact absurd hmem (by decide)
    · simp at heq
  | regex => exact h.elim

namespace Eraser

theorem previousText_eq (e : Eraser) : e.previousText = (lexemes e.kept).head?.map (·.2) := headText_significant e.kept

/-- An `export` kept last is taken back. -/
theorem lexemes_retractExport (e : Eraser) :
    lexemes e.retractExport.kept = if e.previousText = some "export" then (lexemes e.kept).tail else lexemes e.kept := by
  unfold retractExport
  split
  · exact lexemes_tail_significant e.kept
  · rfl

/-- What a step that keeps nothing leaves of what was kept: all of it, or all but an `export` at its end. -/
theorem Sheds.lexemes_cases {e : Eraser} {kept : List Token} (h : Sheds e kept) :
    lexemes kept = lexemes e.kept ∨ ∃ m, m.2 = "export" ∧ lexemes e.kept = m :: lexemes kept := by
  cases h with
  | nothing => exact Or.inl rfl
  | blanks => exact Or.inl (lexemes_dropBlanks e.kept)
  | module =>
    rw [lexemes_retractExport, previousText_eq]
    split
    · rename_i hexport
      obtain ⟨m, hm, htext⟩ := Option.map_eq_some_iff.mp hexport
      obtain ⟨ms, hms⟩ := List.head?_eq_some_iff.mp hm
      exact Or.inr ⟨m, htext, by rw [hms, List.tail_cons]⟩
    · exact Or.inl rfl

section Growth

variable {e e' : Eraser} {m : Lexeme} {said : List Lexeme}

/-- What a step does to the code: nothing, or it takes an `export` back, or it adds tokens, the first of which stood in front of the walk
or is a regular expression. -/
theorem lexemes_of_steps (hs : Steps e e') :
    lexemes e'.kept = lexemes e.kept ∨ (∃ m, m.2 = "export" ∧ lexemes e.kept = m :: lexemes e'.kept) ∨
      ∃ later m, lexemes e'.kept = later ++ m :: lexemes e.kept ∧ ((lexemes e.rest).head? = some m ∨ m.1 = .regex) := by
  rcases moves_or_splices hs with ⟨taken, hrest, -, hsheds | ⟨hkept, -⟩⟩ | ⟨t, ts, n, -, -, -, -, -, hkept⟩
  · rcases hsheds.lexemes_cases with hsame | hless
    · exact .inl hsame
    · exact .inr (.inl hless)
  · rw [hkept, hrest, lexemes_append, lexemes_append, lexemes_reverse]
    cases lexemes taken with
    | nil => exact .inl rfl
    | cons m ms => exact .inr (.inr ⟨ms.reverse, m, by rw [List.reverse_cons, List.append_assoc]; rfl, .inl rfl⟩)
  · refine .inr (.inr ⟨[], (regexToken t (sourceText (t :: ts)) n).lexeme, ?_, .inr rfl⟩)
    rw [hkept]
    exact lexemes_cons_of_not rfl e.kept

/-- All code up to a lexeme other than `export` stays. -/
theorem suffix_of_steps (hm : m.2 ≠ "export") (hs : Steps e e') (h : m :: said <:+ lexemes e.kept) : m :: said <:+ lexemes e'.kept := by
  rcases lexemes_of_steps hs with hsame | ⟨x, hx, hless⟩ | ⟨later, x, hmore, -⟩
  · exact hsame ▸ h
  · rw [hless] at h
    rcases List.suffix_cons_iff.mp h with heq | hsuffix
    · exact absurd ((List.cons.inj heq).1 ▸ hx) hm
    · exact hsuffix
  · rw [hmore]
    exact h.trans ((List.suffix_cons x _).trans (List.suffix_append later _))

theorem suffix_of_reaches (hm : m.2 ≠ "export") (hrun : Reaches e e') (h : m :: said <:+ lexemes e.kept) : m :: said <:+ lexemes e'.kept :=
  hrun.preserves (fun h hs => suffix_of_steps hm hs h) h

/-- A lexeme of the code, if it is no regular expression, was kept where it stood in front of the walk and the code ended before it. -/
theorem exists_kept {b : Lexeme} (hm : m.2 ≠ "export") (hb : b.1 ≠ .regex) (hrun : Reaches e e') (h : m :: said <:+ lexemes e.kept)
    (hend : b :: m :: said <:+ lexemes e'.kept) :
    b :: m :: said <:+ lexemes e.kept ∨
      ∃ e₁, Reaches e e₁ ∧ lexemes e₁.kept = m :: said ∧ (lexemes e₁.rest).head? = some b := by
  induction hrun with
  | refl => exact .inl hend
  | @next e e₁ e' hs hrun ih =>
    rcases ih (suffix_of_steps hm hs h) hend with hkept | ⟨e₂, hrun₂, hcode, hnext⟩
    · rcases lexemes_of_steps hs with hsame | ⟨x, -, hless⟩ | ⟨later, x, hmore, hx⟩
      · exact .inl (hsame ▸ hkept)
      · exact .inl (hless ▸ hkept.trans (List.suffix_cons x _))
      · rw [hmore] at hkept
        have hfront : x :: lexemes e.kept <:+ later ++ x :: lexemes e.kept := List.suffix_append later _
        by_cases hlen : (m :: said).length = (lexemes e.kept).length
        · -- the code ended here, and this step adds the lexeme
          have hcode : m :: said = lexemes e.kept := h.eq_of_length hlen
          have hall : b :: m :: said = x :: lexemes e.kept :=
            (List.suffix_of_suffix_length_le hkept hfront (by simp only [List.length_cons] at hlen ⊢; omega)).eq_of_length
              (by simp only [List.length_cons] at hlen ⊢; omega)
          obtain rfl : b = x := (List.cons.inj hall).1
          exact .inr ⟨e, .refl e, hcode.symm, hx.resolve_right hb⟩
        · have hle := h.length_le
          refine .inl (List.suffix_of_suffix_length_le hkept ((List.suffix_cons x _).trans hfront) ?_)
          simp only [List.length_cons] at hlen hle ⊢
          omega
    · exact .inr ⟨e₂, .next hs hrun₂, hcode, hnext⟩

end Growth

/-! ## What was noted -/

section Notes

variable {e : Eraser} {t : Token} {ts : List Token}

theorem specifiers_retractExport (e : Eraser) : e.retractExport.specifiers = e.specifiers := by
  unfold retractExport
  split <;> rfl

theorem specifiers_noteWord (e : Eraser) (word : String) (next : List Token) : (e.noteWord word next).specifiers = e.specifiers := by
  unfold noteWord
  split
  · rfl
  split
  · rfl
  split <;> rfl

theorem specifiers_onTrivia (e : Eraser) (t : Token) (ts : List Token) : e.specifiers <:+ (onTrivia e t ts).1.specifiers := by
  unfold onTrivia
  split
  · split
    · exact List.suffix_cons _ _
    · exact List.suffix_refl _
  · exact List.suffix_refl _

/-- An import that is kept is noted. -/
theorem specifiers_copyImport {e' : {e' : Eraser // weight e'.rest ≤ weight ts}} (h : copyImport e ts = .ok e') :
    ∃ s, e'.1.specifiers = s :: e.specifiers := by
  induction ts generalizing e with
  | nil => cases h
  | cons t ts ih =>
    unfold copyImport at h
    simp only at h
    split at h
    · cases h
    split at h
    · obtain rfl := Except.ok.inj h
      exact ⟨_, rfl⟩
    split at h
    · rename_i e₁ he₁
      obtain rfl := Except.ok.inj h
      obtain ⟨s, hs⟩ := ih he₁
      exact ⟨s, hs⟩
    · cases h

theorem specifiers_copyExport {e' : Next (t :: ts)} (h : copyExport e t ts = .ok e') : e.specifiers <:+ e'.1.specifiers := by
  unfold copyExport at h
  split at h
  · cases h
  simp only at h
  split at h
  · split at h
    · obtain rfl := Except.ok.inj h
      exact List.suffix_cons _ _
    · obtain rfl := Except.ok.inj h
      exact List.suffix_refl _
  · obtain rfl := Except.ok.inj h
    exact List.suffix_refl _

theorem specifiers_onStatement {e' : Next (t :: ts)} (h : onStatement e t ts = .ok (some e')) : e.specifiers <:+ e'.1.specifiers := by
  have hskip {r : Tail (t :: ts)} (hr : some (skipTo e.retractExport r) = some e') : e.specifiers <:+ e'.1.specifiers := by
    obtain rfl := Option.some.inj hr
    exact (specifiers_retractExport e).symm ▸ List.suffix_refl _
  unfold onStatement at h
  simp only at h
  split at h
  · obtain ⟨r, _, hr⟩ := ok_of_map h
    exact hskip hr
  split at h
  · obtain ⟨r, _, hr⟩ := ok_of_map h
    exact hskip hr
  split at h
  · obtain ⟨r, _, hr⟩ := ok_of_map h
    exact hskip hr
  split at h
  · cases h
  split at h
  · cases h
  split at h
  · split at h
    · obtain rfl := Option.some.inj (Except.ok.inj h)
      exact List.suffix_refl _
    · obtain ⟨r, hcopy, hr⟩ := ok_of_map h
      obtain rfl := Option.some.inj hr
      obtain ⟨s, hs⟩ := specifiers_copyImport hcopy
      exact ⟨[s], hs.symm⟩
  split at h
  · obtain rfl := Option.some.inj (Except.ok.inj h)
    exact List.suffix_refl _
  split at h
  · obtain ⟨r, hcopy, hr⟩ := ok_of_map h
    obtain rfl := Option.some.inj hr
    exact specifiers_copyExport hcopy
  · cases h

theorem specifiers_onWord {e' : Next (t :: ts)} (h : onWord e t ts = .ok e') : e'.1.specifiers = e.specifiers := by
  unfold onWord at h
  simp only at h
  split at h
  · cases h
  split at h
  · obtain rfl := Except.ok.inj h
    rfl
  split at h
  · obtain ⟨r, _, rfl⟩ := ok_of_map h
    rfl
  split at h
  · obtain ⟨r, _, rfl⟩ := ok_of_map h
    rfl
  · obtain rfl := Except.ok.inj h
    exact specifiers_noteWord e t.text (significant ts)

theorem specifiers_onIdentifier {e' : Next (t :: ts)} (h : onIdentifier e t ts = .ok e') : e.specifiers <:+ e'.1.specifiers := by
  unfold onIdentifier at h
  split at h
  · obtain rfl := Except.ok.inj h
    exact List.suffix_refl _
  split at h
  · obtain ⟨r, _, rfl⟩ := ok_of_map h
    exact List.suffix_refl _
  split at h
  · split at h
    · cases h
    · rename_i e₁ he₁
      obtain rfl := Except.ok.inj h
      exact specifiers_onStatement he₁
    · exact (specifiers_onWord h).symm ▸ List.suffix_refl _
  · exact (specifiers_onWord h).symm ▸ List.suffix_refl _

theorem specifiers_onMark {e' : Next (t :: ts)} (h : onMark e t ts = .ok e') : e'.1.specifiers = e.specifiers := by
  unfold onMark at h
  split at h
  · split at h <;> obtain rfl := Except.ok.inj h <;> rfl
  split at h
  · obtain rfl := Except.ok.inj h
    rfl
  split at h
  · split at h
    · obtain ⟨r, _, rfl⟩ := ok_of_map h
      rfl
    · obtain rfl := Except.ok.inj h
      rfl
  split at h
  · split at h
    · split at h <;> obtain rfl := Except.ok.inj h <;> rfl
    · obtain rfl := Except.ok.inj h
      rfl
  split at h
  · obtain rfl := Except.ok.inj h
    rfl
  · unfold onClosing at h
    split at h
    · split at h
      · obtain rfl := Except.ok.inj h
        rfl
      · cases h
    · cases h
  · split at h <;> obtain rfl := Except.ok.inj h <;> rfl

theorem specifiers_of_steps {e' : Eraser} (hs : Steps e e') : e.specifiers <:+ e'.specifiers := by
  cases hs with
  | @intro t ts next _ h =>
    unfold step at h
    split at h
    · obtain rfl := Except.ok.inj h
      exact specifiers_onTrivia e t ts
    split at h
    · exact specifiers_onIdentifier h
    split at h
    · unfold onPunctuation at h
      split at h
      · split at h
        · unfold onRegex at h
          simp only at h
          split at h
          · cases h
          · obtain rfl := Except.ok.inj h
            exact List.suffix_refl _
        · exact (specifiers_onMark h).symm ▸ List.suffix_refl _
      · exact (specifiers_onMark h).symm ▸ List.suffix_refl _
    · obtain rfl := Except.ok.inj h
      exact List.suffix_refl _

/-- A module that was noted stays noted. -/
theorem specifiers_of_reaches {e' : Eraser} (hrun : Reaches e e') : e.specifiers <:+ e'.specifiers := by
  induction hrun with
  | refl => exact List.suffix_refl _
  | next hs _ ih => exact (specifiers_of_steps hs).trans ih

end Notes

end Eraser

end ScriptLoader.Syntax
