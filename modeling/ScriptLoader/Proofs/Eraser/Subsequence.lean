import Mathlib
import ScriptLoader.Proofs.Eraser.Moves
import ScriptLoader.Proofs.Lexer.Tiling

/-!
# The output is a subsequence of the source

Wherever the walk gets, the tokens on both sides of it are the source, cut into pieces that stand where they say they stand, and the
tokens kept are some of those passed, in their order (`Whole`). Neither a step that skips or copies many tokens nor a regular
expression that is put together on the way changes that. So erasing only deletes, and it deletes whole tokens (`erase_only_deletes`).
-/

namespace ScriptLoader.Syntax

/-- The tokens put together are the text; each is what can be read where it stands, and tells where that is. -/
structure Cuts (content : List Char) (ts : List Token) : Prop where
  text : sourceText ts = content
  placed : ∀ front t back, ts = front ++ t :: back →
    t.start = (sourceText front).length ∧ t.position = Position.first.advance (sourceText front) ∧
      t.ReadAt (sourceText (t :: back))

theorem Tiled.cuts {ts : List Token} (h : Tiled .first 0 [] ts) : Cuts (sourceText ts) ts := by
  refine ⟨rfl, ?_⟩
  rintro front t back rfl
  obtain ⟨-, hposition, hstart, hread, -⟩ := tiled_append_iff.mp h
  refine ⟨by rw [hstart, Nat.zero_add], hposition, ?_⟩
  rw [List.append_nil] at hread
  exact hread

namespace Eraser

/-- All tokens of the source, as they are known so far. -/
def buffer (e : Eraser) : List Token := e.passed.reverse ++ e.rest

/-- The tokens are the source, and those kept are some of those passed. -/
structure Whole (content : List Char) (e : Eraser) : Prop where
  text : sourceText e.buffer = content
  tiled : Tiled .first 0 [] e.buffer
  kept : e.kept.Sublist e.passed

variable {content : List Char} {e e' : Eraser}

theorem whole_start {ts : List Token} (h : tokenize content 0 .first = .ok ts) : Whole content (start ts) :=
  ⟨sourceText_lexFrom (lexFrom_of_tokenize h), tiled_of_lexFrom (lexFrom_of_tokenize h), .slnil⟩

theorem Whole.move (h : Whole content e) (hmove : Moves e e.rest e') : Whole content e' := by
  obtain ⟨taken, hrest, hpassed, hkept⟩ := hmove
  have hbuffer : e'.buffer = e.buffer := by
    rw [buffer, buffer, hpassed, hrest, List.reverse_append, List.reverse_reverse, List.append_assoc]
  refine ⟨hbuffer ▸ h.text, hbuffer ▸ h.tiled, ?_⟩
  rw [hpassed]
  rcases hkept with hkept | ⟨hkept, -⟩
  · exact (hkept.suffix.sublist.trans h.kept).trans (List.sublist_append_right ..)
  · rw [hkept]
    exact (List.Sublist.refl _).append h.kept

/-- A regular expression takes the place of the tokens that its text was read as, and what is behind it is the same text as before. -/
theorem Whole.splice (h : Whole content e) (hsplice : Splices e e') : Whole content e' := by
  obtain ⟨t, ts, n, hrest, -, hn, hus, hpassed, hkept⟩ := hsplice
  obtain ⟨hfront, hback⟩ := tiled_append_iff.mp h.tiled
  rw [hrest] at hfront hback
  have hplace := hback
  obtain ⟨hposition, hstart, -⟩ := hplace
  obtain ⟨htext, htiled⟩ := tiled_regex hn hus
  have hbuffer : e'.buffer = e.passed.reverse ++ (regexToken t (sourceText (t :: ts)) n :: e'.rest) := by
    rw [buffer, hpassed, List.reverse_cons, List.append_assoc]
    rfl
  refine ⟨?_, ?_, ?_⟩
  · have hall := h.text
    rw [buffer, sourceText_append, hrest] at hall
    rw [hbuffer, sourceText_append, regexToken, htext]
    exact hall
  · rw [hbuffer, tiled_append_iff, regexToken, htext, ← hstart, ← hposition]
    exact ⟨hfront, htiled⟩
  · rw [hpassed, hkept]
    exact h.kept.cons_cons _

theorem Whole.step (h : Whole content e) (hstep : Steps e e') : Whole content e' :=
  (moves_or_splices hstep).elim h.move h.splice

theorem whole_of_reaches {ts : List Token} (hlex : tokenize content 0 .first = .ok ts) (h : Reaches (start ts) e) :
    Whole content e :=
  h.preserves Whole.step (whole_start hlex)

theorem Whole.cuts (h : Whole content e) : Cuts content e.buffer := h.text ▸ h.tiled.cuts

theorem Whole.shaped (h : Whole content e) {t : Token} (ht : t ∈ e.buffer) : t.Shaped ∨ t.kind = .regex := by
  obtain ⟨front, back, hbuffer⟩ := List.append_of_mem ht
  exact (h.cuts.placed front t back hbuffer).2.2.shaped

theorem Whole.sublist (h : Whole content e) : e.kept.reverse.Sublist e.passed.reverse := List.reverse_sublist.mpr h.kept

theorem Whole.increasing (h : Whole content e) : e.kept.reverse.Pairwise (·.start < ·.start) :=
  h.tiled.pairwise.sublist (h.sublist.trans (List.sublist_append_left ..))

end Eraser

open Eraser

/-- A source that is erased was lexed and walked to its end. -/
theorem walk_of_erase {content : String} {r : Erased} (h : erase content = .ok r) :
    ∃ ts e, tokenize content.toList 0 .first = .ok ts ∧ walk (start ts) = .ok e ∧ r = ⟨e.output, e.specifiers.reverse⟩ := by
  unfold erase at h
  split at h
  · cases h
  · rename_i ts hts
    obtain ⟨e, he, hr⟩ := ok_of_map h
    exact ⟨ts, e, hts, he, hr.symm⟩

/-- At every step of the walk the tokens are the source and each stands where it says, the tokens kept are a subsequence of those passed,
and their places increase. So the code is put together from a subsequence of the tokens of the source. -/
theorem erase_only_deletes (content : String) :
    (∀ ts e, tokenize content.toList 0 .first = .ok ts → Reaches (start ts) e →
      Cuts content.toList e.buffer ∧ e.kept.reverse.Sublist e.passed.reverse ∧
        e.kept.reverse.Pairwise (·.start < ·.start)) ∧
    ∀ r, erase content = .ok r →
      ∃ ts kept, Cuts content.toList ts ∧ kept.Sublist ts ∧ kept.Pairwise (·.start < ·.start) ∧
        r.code.toList = sourceText kept := by
  constructor
  · intro ts e hlex hreach
    have hwhole := whole_of_reaches hlex hreach
    exact ⟨hwhole.cuts, hwhole.sublist, hwhole.increasing⟩
  · intro r h
    obtain ⟨ts, e, hlex, hwalk, rfl⟩ := walk_of_erase h
    have hwhole := whole_of_reaches hlex (reaches_of_walk hwalk).1
    exact ⟨e.buffer, e.kept.reverse, hwhole.cuts, hwhole.sublist.trans (List.sublist_append_left ..), hwhole.increasing,
      toList_output e⟩

/-- A regular expression with a slash in a class of characters is kept whole; the cast behind it is not kept. -/
theorem erase_only_deletes_regex :
    ∃ ts e, tokenize "/[/ ]/ as R".toList 0 .first = .ok ts ∧ Reaches (start ts) e ∧
      (Cuts "/[/ ]/ as R".toList e.buffer ∧ e.kept.reverse.Sublist e.passed.reverse ∧
        e.kept.reverse.Pairwise (·.start < ·.start)) ∧
      erase "/[/ ]/ as R" = .ok ⟨"/[/ ]/", []⟩ ∧
      ∃ ts kept, Cuts "/[/ ]/ as R".toList ts ∧ kept.Sublist ts ∧ kept.Pairwise (·.start < ·.start) ∧
        "/[/ ]/".toList = sourceText kept := by
  obtain ⟨slash, hslash⟩ : ∃ t : Token, t = ⟨.punctuation, "/", 0, ⟨1, 1⟩⟩ := ⟨_, rfl⟩
  obtain ⟨inside, hinside⟩ : ∃ ts : List Token, ts =
      [⟨.punctuation, "[", 1, ⟨1, 2⟩⟩, ⟨.punctuation, "/", 2, ⟨1, 3⟩⟩, ⟨.blank, " ", 3, ⟨1, 4⟩⟩, ⟨.punctuation, "]", 4, ⟨1, 5⟩⟩,
       ⟨.punctuation, "/", 5, ⟨1, 6⟩⟩, ⟨.blank, " ", 6, ⟨1, 7⟩⟩, ⟨.identifier, "as", 7, ⟨1, 8⟩⟩, ⟨.blank, " ", 9, ⟨1, 10⟩⟩,
       ⟨.identifier, "R", 10, ⟨1, 11⟩⟩] := ⟨_, rfl⟩
  have hlex : tokenize "/[/ ]/ as R".toList 0 .first = .ok (slash :: inside) := by
    rw [hslash, hinside]
    cbv
  -- the first step takes six characters together and lexes the cast again
  obtain ⟨hw, hstep⟩ := @step_of_regex (start (slash :: inside)) slash inside
    [⟨.blank, " ", 6, ⟨1, 7⟩⟩, ⟨.identifier, "as", 7, ⟨1, 8⟩⟩, ⟨.blank, " ", 9, ⟨1, 10⟩⟩, ⟨.identifier, "R", 10, ⟨1, 11⟩⟩] 6
    (by rw [hslash]) (.inl (by rw [hslash])) rfl (by rw [hslash, hinside]; cbv) (by rw [hslash, hinside]; cbv)
  have herase : erase "/[/ ]/ as R" = .ok ⟨"/[/ ]/", []⟩ := by
    rw [erase, hlex]
    simp only
    rw [walk_of_ok rfl hstep]
    subst hslash hinside
    cbv
  obtain ⟨ts, e, hlex, hwalk, -⟩ := walk_of_erase herase
  have hreach := (reaches_of_walk hwalk).1
  exact ⟨ts, e, hlex, hreach, (erase_only_deletes _).1 ts e hlex hreach, herase, (erase_only_deletes _).2 _ herase⟩

end ScriptLoader.Syntax
