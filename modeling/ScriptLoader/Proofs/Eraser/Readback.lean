import Mathlib
import ScriptLoader.Proofs.Eraser.Moves
import ScriptLoader.Proofs.Lexer.Ink

/-!
# The output read back

Without a slash in the source the walk keeps tokens of the source only (`Within`), so what its output says when it is lexed again is
decided by the tokens kept: it says what they say exactly if no line comment takes up code and no token runs into the next one
(`readsBack_iff`). The eraser takes care of neither (`not_readsBack_heritage`).
-/

namespace ScriptLoader.Syntax

namespace Eraser

/-! ## What the walk keeps -/

/-- All that is kept and all that is to come are tokens of `us`. -/
structure Within (us : List Token) (e : Eraser) : Prop where
  kept : e.kept ⊆ us
  rest : e.rest ⊆ us

section Within

variable {us : List Token} {e : Eraser}

/-- A step at another token than a slash keeps tokens of the source only. -/
theorem Within.step {e' : Eraser} (h : Within us e) (hslash : ∀ u ∈ us, u.text ≠ "/" ∧ u.text ≠ "/=") (hstep : Steps e e') :
    Within us e' := by
  rcases moves_or_splices hstep with ⟨taken, hrest, -, hkept⟩ | ⟨t, ts, n, hrest, ht, -⟩
  · have hsub : taken ++ e'.rest ⊆ us := hrest ▸ h.rest
    obtain ⟨htaken, hrest'⟩ := List.append_subset.mp hsub
    refine ⟨?_, hrest'⟩
    rcases hkept with hkept | ⟨hkept, -⟩
    · exact fun u hu => h.kept (hkept.suffix.mem hu)
    · rw [hkept]
      exact List.append_subset.mpr ⟨fun u hu => htaken (List.mem_reverse.mp hu), h.kept⟩
  · obtain ⟨h₁, h₂⟩ := hslash t (h.rest (hrest ▸ List.mem_cons_self))
    exact absurd ht (not_or.mpr ⟨h₁, h₂⟩)

/-- A walk without slashes keeps tokens of the source only. -/
theorem kept_subset_of_walk {ts : List Token} (hslash : ∀ u ∈ ts, u.text ≠ "/" ∧ u.text ≠ "/=")
    (h : walk (start ts) = .ok e) : e.kept ⊆ ts :=
  ((reaches_of_walk h).1.preserves (fun hw hs => Within.step hw hslash hs) ⟨nofun, fun _ hu => hu⟩).kept

end Within

/-- The output, lexed again, says what the tokens kept say. -/
def ReadsBack (e : Eraser) : Prop := ∃ ts, tokenize e.output.toList 0 .first = .ok ts ∧ lexemes ts = lexemes e.kept.reverse

theorem readsBack_iff_says (e : Eraser) : e.ReadsBack ↔ Says (sourceText e.kept.reverse) (lexemes e.kept.reverse) := by
  rw [says_iff_lexFrom .first 0, ← toList_output]
  constructor
  · rintro ⟨ts, hts, heq⟩
    exact ⟨ts, lexFrom_of_tokenize hts, heq⟩
  · rintro ⟨ts, hts, heq⟩
    refine ⟨ts, ?_, heq⟩
    rw [tokenize, List.drop_zero, hts]
    rfl

end Eraser

theorem Resumes.breaksInBlank {ts : List Token} (h : Resumes ts) : BreaksInBlank ts := by
  induction ts with
  | nil => trivial
  | cons t ts ih => exact h.2.imp id fun h => ⟨h.1, ih h.2⟩

theorem EndsComments.cutsNothing {ts : List Token} (h : EndsComments ts) : CutsNothing ts := by
  induction ts with
  | nil => trivial
  | cons t ts ih => exact ⟨fun hk => (h.1 hk).breaksInBlank, ih h.2⟩

/-- The output of a source without slashes says what the tokens kept say if no line comment takes up what is kept behind it and no
token runs into what is kept behind it. It says something else if one does, unless a line comment cuts a text of several lines. -/
theorem readsBack_iff {content : String} {ts : List Token} {e : Eraser} (hlex : tokenize content.toList 0 .first = .ok ts)
    (hslash : ∀ t ∈ ts, t.text ≠ "/" ∧ t.text ≠ "/=") (hwalk : Eraser.walk (Eraser.start ts) = .ok e) :
    (EndsComments e.kept.reverse ∧ Separate e.kept.reverse → e.ReadsBack) ∧
      (CutsNothing e.kept.reverse → e.ReadsBack → EndsComments e.kept.reverse ∧ Separate e.kept.reverse) := by
  have hlexed : ∀ t ∈ e.kept.reverse, t.Lexed := by
    intro t ht
    have hmem := Eraser.kept_subset_of_walk hslash hwalk (List.mem_reverse.mp ht)
    exact ⟨shaped_of_lexFrom (lexFrom_of_tokenize hlex) t hmem, hslash t hmem⟩
  rw [Eraser.readsBack_iff_says]
  exact ⟨fun h => (says_lexemes_iff hlexed h.1.cutsNothing).mpr h, fun hcuts => (says_lexemes_iff hlexed hcuts).mp⟩

theorem readsBack_cast :
    ∃ ts e, tokenize "x as T".toList 0 .first = .ok ts ∧ Eraser.walk (Eraser.start ts) = .ok e ∧ e.output = "x" ∧ e.ReadsBack := by
  have hlex : tokenize "x as T".toList 0 .first = .ok [⟨.identifier, "x", 0, ⟨1, 1⟩⟩, ⟨.blank, " ", 1, ⟨1, 2⟩⟩,
      ⟨.identifier, "as", 2, ⟨1, 3⟩⟩, ⟨.blank, " ", 4, ⟨1, 5⟩⟩, ⟨.identifier, "T", 5, ⟨1, 6⟩⟩] := by cbv
  obtain ⟨e, hwalk, hkept⟩ := Eraser.ok_of_map (f := Eraser.kept) (b := [⟨.identifier, "x", 0, ⟨1, 1⟩⟩])
    (x := Eraser.walk (Eraser.start [⟨.identifier, "x", 0, ⟨1, 1⟩⟩, ⟨.blank, " ", 1, ⟨1, 2⟩⟩,
      ⟨.identifier, "as", 2, ⟨1, 3⟩⟩, ⟨.blank, " ", 4, ⟨1, 5⟩⟩, ⟨.identifier, "T", 5, ⟨1, 6⟩⟩])) (by cbv)
  refine ⟨_, e, hlex, hwalk, ?_, (readsBack_iff hlex (by decide) hwalk).1 ?_⟩
  · rw [Eraser.output, hkept]
    decide
  · rw [hkept]
    exact ⟨⟨fun _ => trivial, trivial⟩, fun _ => rfl, trivial⟩

/-- Without its exclamation mark `x!in y` becomes `xin y`, which names one variable and not two. -/
theorem not_readsBack_assertion :
    ∃ ts e, tokenize "x!in y".toList 0 .first = .ok ts ∧ (∀ t ∈ ts, t.text ≠ "/" ∧ t.text ≠ "/=") ∧
      Eraser.walk (Eraser.start ts) = .ok e ∧ ¬e.ReadsBack := by
  have hlex : tokenize "x!in y".toList 0 .first = .ok [⟨.identifier, "x", 0, ⟨1, 1⟩⟩, ⟨.punctuation, "!", 1, ⟨1, 2⟩⟩,
      ⟨.identifier, "in", 2, ⟨1, 3⟩⟩, ⟨.blank, " ", 4, ⟨1, 5⟩⟩, ⟨.identifier, "y", 5, ⟨1, 6⟩⟩] := by cbv
  obtain ⟨e, hwalk, hkept⟩ := Eraser.ok_of_map (f := Eraser.kept)
    (b := [⟨.identifier, "y", 5, ⟨1, 6⟩⟩, ⟨.blank, " ", 4, ⟨1, 5⟩⟩, ⟨.identifier, "in", 2, ⟨1, 3⟩⟩, ⟨.identifier, "x", 0, ⟨1, 1⟩⟩])
    (x := Eraser.walk (Eraser.start [⟨.identifier, "x", 0, ⟨1, 1⟩⟩, ⟨.punctuation, "!", 1, ⟨1, 2⟩⟩,
      ⟨.identifier, "in", 2, ⟨1, 3⟩⟩, ⟨.blank, " ", 4, ⟨1, 5⟩⟩, ⟨.identifier, "y", 5, ⟨1, 6⟩⟩])) (by cbv)
  refine ⟨_, e, hlex, by decide, hwalk, ?_⟩
  rintro ⟨us, hus, heq⟩
  have hread : tokenize "xin y".toList 0 .first =
      .ok [⟨.identifier, "xin", 0, ⟨1, 1⟩⟩, ⟨.blank, " ", 3, ⟨1, 4⟩⟩, ⟨.identifier, "y", 4, ⟨1, 5⟩⟩] := by cbv
  have houtput : e.output = "xin y" := by
    rw [Eraser.output, hkept]
    decide
  rw [houtput, hread] at hus
  injection hus with hus
  rw [← hus, hkept] at heq
  exact absurd heq (by decide)

/-- With the line break before the cast goes what ended the comment. -/
example : erase "x // y\n  as T;" = .ok ⟨"x // y;", []⟩ := by cbv

end ScriptLoader.Syntax
