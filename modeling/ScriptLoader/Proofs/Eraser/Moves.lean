import ScriptLoader.Proofs.Eraser.Run

/-!
# What a step does to the tokens

However a step of the walk comes to its decision, it does one of two things (`moves_or_splices`). It goes past some tokens, keeping
all of them, which are one token or a declaration of a module, or none of them and perhaps fewer of the tokens kept before (`Moves`);
or it puts a regular expression together, keeps it, and has what follows lexed again (`Splices`).
-/

namespace ScriptLoader.Syntax.Eraser

/-- What is kept behind a step that keeps no token: what was kept before, perhaps without blank space or an `export` at its end. -/
inductive Sheds (e : Eraser) : List Token → Prop where
  | nothing : Sheds e e.kept
  | blanks : Sheds e e.dropBlanks.kept
  | module : Sheds e e.retractExport.kept

theorem Sheds.suffix {e : Eraser} {kept : List Token} (h : Sheds e kept) : kept <:+ e.kept := by
  cases h with
  | nothing => exact List.suffix_refl _
  | blanks => exact List.dropWhile_suffix _
  | module =>
    unfold retractExport
    split
    · exact (List.tail_suffix _).trans (significant_suffix e.kept)
    · exact List.suffix_refl _

/-- A declaration of a module may begin at the token, which names no member. -/
structure BeginsModule (e : Eraser) (t : Token) : Prop where
  kind : t.kind = .identifier
  text : t.text ∈ ["import", "export"]
  point : e.previousText ≠ some "."
  point' : e.previousText ≠ some "?."

/-- The tokens may be kept in one step: it is one token, or it is a declaration of a module. -/
def KeptTogether (e : Eraser) (ts : List Token) : Prop := ∃ t us, ts = t :: us ∧ (us = [] ∨ BeginsModule e t)

/-- The walk goes from `e`, in front of `ts`, past some tokens to `e'`. -/
def Moves (e : Eraser) (ts : List Token) (e' : Eraser) : Prop :=
  ∃ taken, ts = taken ++ e'.rest ∧ e'.passed = taken.reverse ++ e.passed ∧
    (Sheds e e'.kept ∨ e'.kept = taken.reverse ++ e.kept ∧ KeptTogether e taken)

/-- A regular expression of `n` characters, which begins at the token `t` of the text `cs`. -/
def regexToken (t : Token) (cs : List Char) (n : Nat) : Token := ⟨.regex, String.ofList (cs.take n), t.start, t.position⟩

/-- A regular expression begins at a slash in front of the walk: it is kept, and what follows is lexed again. -/
def Splices (e e' : Eraser) : Prop :=
  ∃ t ts n, e.rest = t :: ts ∧ (t.text = "/" ∨ t.text = "/=") ∧ regexLength (sourceText (t :: ts)) = some n ∧
    lexFrom ⟨t.position.line, t.position.column + ((sourceText (t :: ts)).take n).length⟩
      (t.start + ((sourceText (t :: ts)).take n).length) ((sourceText (t :: ts)).drop n) = .ok e'.rest ∧
    e'.passed = regexToken t (sourceText (t :: ts)) n :: e.passed ∧ e'.kept = regexToken t (sourceText (t :: ts)) n :: e.kept

/-- The same tokens were passed, and what is kept is what was kept, perhaps without its end. -/
structure Retreats (e e' : Eraser) : Prop where
  passed : e'.passed = e.passed
  kept : Sheds e e'.kept

/-- Nothing was passed and nothing kept. -/
structure Stays (e e' : Eraser) : Prop where
  passed : e'.passed = e.passed
  kept : e'.kept = e.kept

theorem Stays.refl (e : Eraser) : Stays e e := ⟨rfl, rfl⟩

theorem Stays.retreats {e e' : Eraser} (h : Stays e e') : Retreats e e' := ⟨h.passed, h.kept ▸ .nothing⟩

theorem Retreats.refl (e : Eraser) : Retreats e e := (Stays.refl e).retreats

theorem retreats_dropBlanks (e : Eraser) : Retreats e e.dropBlanks := ⟨rfl, .blanks⟩

theorem retreats_retractExport (e : Eraser) : Retreats e e.retractExport := by
  refine ⟨?_, .module⟩
  unfold retractExport
  split <;> rfl

theorem stays_noteWord (e : Eraser) (word : String) (next : List Token) : Stays e (e.noteWord word next) := by
  unfold noteWord
  split
  · exact ⟨rfl, rfl⟩
  split
  · exact ⟨rfl, rfl⟩
  split <;> exact ⟨rfl, rfl⟩

theorem stays_onColon (e : Eraser) : Stays e e.onColon := ⟨rfl, rfl⟩

/-! ## Moves -/

section Moves

variable {e e₁ : Eraser} {t : Token} {ts : List Token}

/-- A list is the tokens in front of one of its end parts, and the end part. -/
theorem taken_append (r : Tail ts) : ts.take (ts.length - r.tokens.length) ++ r.tokens = ts := by
  have hdrop := List.suffix_iff_eq_drop.mp r.suffix
  calc ts.take (ts.length - r.tokens.length) ++ r.tokens
      = ts.take (ts.length - r.tokens.length) ++ ts.drop (ts.length - r.tokens.length) := congrArg _ hdrop
    _ = ts := List.take_append_drop ..

theorem Retreats.skipTo (h : Retreats e e₁) (r : Tail ts) : Moves e ts (skipTo e₁ r).1 := by
  refine ⟨ts.take (ts.length - r.tokens.length), (taken_append r).symm, ?_, Or.inl h.kept⟩
  show _ ++ e₁.passed = _
  rw [h.passed]

theorem Stays.keepTo (h : Stays e e₁) (r : Tail (t :: ts)) (hmodule : BeginsModule e t) : Moves e (t :: ts) (keepTo e₁ r).1 := by
  refine ⟨(t :: ts).take ((t :: ts).length - r.tokens.length), (taken_append r).symm, ?_, Or.inr ⟨?_, ?_⟩⟩
  · show _ ++ e₁.passed = _
    rw [h.passed]
  · show _ ++ e₁.kept = _
    rw [h.kept]
  · obtain ⟨n, hn⟩ := Nat.exists_eq_succ_of_ne_zero (Nat.sub_ne_zero_of_lt r.shorter)
    rw [hn]
    exact ⟨t, ts.take n, rfl, .inr hmodule⟩

theorem Stays.keep (h : Stays e e₁) : Moves e (t :: ts) (keep e₁ t ts).1 := by
  refine ⟨[t], rfl, ?_, Or.inr ⟨?_, t, [], rfl, .inl rfl⟩⟩
  · show t :: e₁.passed = _
    rw [h.passed]
    rfl
  · show t :: e₁.kept = _
    rw [h.kept]
    rfl

theorem moves_onTrivia : Moves e (t :: ts) (onTrivia e t ts).1 := by
  unfold onTrivia
  split
  · split
    · exact Stays.keep ⟨rfl, rfl⟩
    · exact (Stays.refl e).keep
  · exact (Stays.refl e).keep

/-- An import that is kept is kept whole. -/
theorem kept_of_copyImport {e' : {e' : Eraser // weight e'.rest ≤ weight ts}} (h : copyImport e ts = .ok e') :
    ∃ taken, ts = taken ++ e'.1.rest ∧ e'.1.passed = taken.reverse ++ e.passed ∧ e'.1.kept = taken.reverse ++ e.kept := by
  induction ts generalizing e with
  | nil => nomatch h
  | cons t ts ih =>
    unfold copyImport at h
    simp only at h
    split at h
    · nomatch h
    split at h
    · injection h with h
      subst h
      exact ⟨[t], rfl, rfl, rfl⟩
    split at h
    · rename_i e₁ he₁
      injection h with h
      subst h
      obtain ⟨taken, hts, hpassed, hkept⟩ := ih he₁
      refine ⟨t :: taken, congrArg (t :: ·) hts, ?_, ?_⟩
      · rw [hpassed, List.reverse_cons, List.append_assoc]
        rfl
      · rw [hkept, List.reverse_cons, List.append_assoc]
        rfl
    · nomatch h

theorem moves_copyExport {e' : Next (t :: ts)} (hmodule : BeginsModule e t) (h : copyExport e t ts = .ok e') :
    Moves e (t :: ts) e'.1 := by
  unfold copyExport at h
  split at h
  · nomatch h
  simp only at h
  split at h
  · split at h
    · injection h with h
      subst h
      exact Stays.keepTo ⟨rfl, rfl⟩ _ hmodule
    · injection h with h
      subst h
      exact (Stays.refl e).keepTo _ hmodule
  · injection h with h
    subst h
    exact (Stays.refl e).keepTo _ hmodule

theorem moves_onStatement {e' : Next (t :: ts)} (hmodule : t.text ∈ ["import", "export"] → BeginsModule e t)
    (h : onStatement e t ts = .ok (some e')) : Moves e (t :: ts) e'.1 := by
  -- the declarations that are skipped take an `export` in front of them along
  have hskip {r : Tail (t :: ts)} (hr : some (skipTo e.retractExport r) = some e') : Moves e (t :: ts) e'.1 := by
    injection hr with hr
    subst hr
    exact (retreats_retractExport e).skipTo r
  unfold onStatement at h
  simp only at h
  split at h
  · obtain ⟨r, _, hr⟩ := ok_of_map h
    exact hskip hr
  split at h
  · obtain ⟨r, _, hr⟩ := ok_of_map h
    exact hskip hr
  split at h
  · obtain ⟨r, _, hr⟩ := ok_of_map h
    exact hskip hr
  split at h
  · nomatch h
  split at h
  · nomatch h
  split at h
  · rename_i himport
    simp only [Bool.and_eq_true, decide_eq_true_eq] at himport
    split at h
    · injection h with h
      injection h with h
      subst h
      exact (Retreats.refl e).skipTo _
    · obtain ⟨r, hcopy, hr⟩ := ok_of_map h
      injection hr with hr
      subst hr
      obtain ⟨taken, hts, hpassed, hkept⟩ := kept_of_copyImport hcopy
      refine ⟨t :: taken, congrArg (t :: ·) hts, ?_, Or.inr ⟨?_, t, taken, rfl, .inr (hmodule (himport.1.symm ▸ by decide))⟩⟩
      · rw [hpassed, List.reverse_cons, List.append_assoc]
        rfl
      · rw [hkept, List.reverse_cons, List.append_assoc]
        rfl
  split at h
  · injection h with h
    injection h with h
    subst h
    exact (Retreats.refl e).skipTo _
  split at h
  · rename_i hexport
    simp only [Bool.and_eq_true, decide_eq_true_eq] at hexport
    obtain ⟨r, hcopy, hr⟩ := ok_of_map h
    injection hr with hr
    subst hr
    exact moves_copyExport (hmodule (hexport.1.symm ▸ by decide)) hcopy
  · nomatch h

theorem moves_onWord {e' : Next (t :: ts)} (h : onWord e t ts = .ok e') : Moves e (t :: ts) e'.1 := by
  unfold onWord at h
  simp only at h
  split at h
  · nomatch h
  split at h
  · injection h with h
    subst h
    exact (Retreats.refl e).skipTo _
  split at h
  · obtain ⟨r, _, rfl⟩ := ok_of_map h
    exact (retreats_dropBlanks e).skipTo _
  split at h
  · obtain ⟨r, _, rfl⟩ := ok_of_map h
    exact (retreats_dropBlanks e).skipTo _
  · injection h with h
    subst h
    exact (stays_noteWord e _ _).keep

theorem moves_onIdentifier {e' : Next (t :: ts)} (hkind : t.kind = .identifier) (h : onIdentifier e t ts = .ok e') :
    Moves e (t :: ts) e'.1 := by
  unfold onIdentifier at h
  split at h
  · injection h with h
    subst h
    exact (Stays.refl e).keep
  rename_i hpoint
  simp only [Bool.or_eq_true, decide_eq_true_eq, not_or] at hpoint
  split at h
  · obtain ⟨r, _, rfl⟩ := ok_of_map h
    exact (Retreats.refl e).skipTo _
  split at h
  · split at h
    · nomatch h
    · rename_i e₁ he₁
      injection h with h
      subst h
      exact moves_onStatement (fun htext => ⟨hkind, htext, hpoint.1, hpoint.2⟩) he₁
    · exact moves_onWord h
  · exact moves_onWord h

theorem moves_onClosing {b : Bracket} {e' : Next (t :: ts)} (h : onClosing e b t ts = .ok e') : Moves e (t :: ts) e'.1 := by
  unfold onClosing at h
  split at h
  · split at h
    · injection h with h
      subst h
      exact Stays.keep ⟨rfl, rfl⟩
    · nomatch h
  · nomatch h

theorem moves_onMark {e' : Next (t :: ts)} (h : onMark e t ts = .ok e') : Moves e (t :: ts) e'.1 := by
  have hskip {r : Tail (t :: ts)} (hr : .ok (Eraser.skipTo e r) = (.ok e' : Except Refusal (Next (t :: ts)))) : Moves e (t :: ts) e'.1 := by
    injection hr with hr
    subst hr
    exact (Retreats.refl e).skipTo r
  have hkeep {e₁ : Eraser} (hr : .ok (Eraser.keep e₁ t ts) = (.ok e' : Except Refusal (Next (t :: ts)))) (hstays : Stays e e₁) :
      Moves e (t :: ts) e'.1 := by
    injection hr with hr
    subst hr
    exact hstays.keep
  unfold onMark at h
  split at h
  · split at h
    · exact hskip h
    · exact hkeep h ⟨rfl, rfl⟩
  split at h
  · exact hskip h
  split at h
  · split at h
    · obtain ⟨r, _, rfl⟩ := ok_of_map h
      exact (Retreats.refl e).skipTo _
    · exact hkeep h (stays_onColon e)
  split at h
  · split at h
    · split at h
      · exact hskip h
      · exact hkeep h (.refl e)
    · exact hkeep h (.refl e)
  split at h
  · exact hkeep h ⟨rfl, rfl⟩
  · exact moves_onClosing h
  · split at h
    · exact hkeep h ⟨rfl, rfl⟩
    · exact hkeep h (.refl e)

end Moves

/-- Punctuation other than a slash is passed; a slash may begin a regular expression. -/
theorem moves_or_splices_onPunctuation {e : Eraser} {t : Token} {ts : List Token} {e' : Next (t :: ts)} (hrest : e.rest = t :: ts)
    (h : onPunctuation e t ts = .ok e') : Moves e (t :: ts) e'.1 ∨ Splices e e'.1 := by
  unfold onPunctuation at h
  split at h
  · rename_i hslash
    simp only [Bool.and_eq_true, Bool.or_eq_true, decide_eq_true_eq] at hslash
    split at h
    · rename_i n hn
      unfold onRegex at h
      simp only at h
      split at h
      · nomatch h
      · rename_i us hus
        injection h with h
        subst h
        exact Or.inr ⟨t, ts, n, hrest, hslash.1, hn, hus, rfl, rfl⟩
    · exact Or.inl (moves_onMark h)
  · exact Or.inl (moves_onMark h)

/-- A slash where no expression has ended is put together with what follows it, if that reads like a regular expression. -/
theorem step_of_regex {e : Eraser} {t : Token} {ts us : List Token} {n : Nat} (hkind : t.kind = .punctuation)
    (hslash : t.text = "/" ∨ t.text = "/=") (hended : e.expressionEnded = false)
    (hn : regexLength (sourceText (t :: ts)) = some n)
    (hus : lexFrom ⟨t.position.line, t.position.column + ((sourceText (t :: ts)).take n).length⟩
      (t.start + ((sourceText (t :: ts)).take n).length) ((sourceText (t :: ts)).drop n) = .ok us) :
    ∃ hw, step e t ts = .ok ⟨{ e with passed := regexToken t (sourceText (t :: ts)) n :: e.passed, rest := us
                                      kept := regexToken t (sourceText (t :: ts)) n :: e.kept }, hw⟩ := by
  have hw : weight us < weight (t :: ts) := by
    have hlen := length_sourceText_le_weight (t :: ts)
    have ht := t.width_pos
    have hpos := regexLength_pos hn
    rw [weight_lexFrom hus, List.length_drop]
    simp only [weight_cons] at hlen ⊢
    omega
  refine ⟨hw, ?_⟩
  have htrivia : t.isTrivia = false := by simp [Token.isTrivia, hkind]
  have hmark : ((t.text = "/" || t.text = "/=") && !e.expressionEnded) = true := by
    rcases hslash with h | h <;> simp [h, hended]
  rw [step, if_neg (by simp [htrivia]), if_neg (by simp [hkind]), if_pos hkind, onPunctuation, if_pos hmark]
  split
  · rename_i m hm
    obtain rfl : n = m := Option.some.inj (hn.symm.trans hm)
    unfold onRegex
    simp only
    split
    · rename_i hbad
      rw [hus] at hbad
      nomatch hbad
    · rename_i us' hus'
      obtain rfl : us = us' := Except.ok.inj (hus.symm.trans hus')
      rfl
  · rename_i hnone
    rw [hn] at hnone
    nomatch hnone

/-- All that a step does to the tokens. -/
theorem moves_or_splices {e e' : Eraser} (h : Steps e e') : Moves e e.rest e' ∨ Splices e e' := by
  obtain ⟨hrest, hs⟩ := h
  rw [hrest]
  unfold step at hs
  split at hs
  · injection hs with hs
    subst hs
    exact Or.inl moves_onTrivia
  split at hs
  · rename_i hkind
    exact Or.inl (moves_onIdentifier hkind hs)
  split at hs
  · exact moves_or_splices_onPunctuation hrest hs
  · injection hs with hs
    subst hs
    exact Or.inl (Stays.refl e).keep

end ScriptLoader.Syntax.Eraser
