import Mathlib.Data.List.Induction
import ScriptLoader.Error
import ScriptLoader.Proofs.Lexer.Literals
import ScriptLoader.Proofs.Lexer.Tiling

/-!
# Places in a source

The place of a character is its line and its column, read off the text before it (`placeBehind`). Wherever in a source the lexer begins,
the tokens that it makes lie end to end from there on and tell their places in the whole source, up to the end or to the first character
at which no token can be read, which is reported with its place (`tokenize_tiles`).
-/

namespace ScriptLoader.Syntax

/-! ## Lines and columns -/

/-- The line and the column behind the first characters of a source: one line more than there are line feeds, and one column more than
there are characters since the last of them. -/
def placeBehind (cs : List Char) : Position := ⟨cs.count '\n' + 1, (cs.reverse.takeWhile (· != '\n')).length + 1⟩

theorem placeBehind_concat (cs : List Char) (c : Char) : placeBehind (cs ++ [c]) = (placeBehind cs).next c := by
  unfold placeBehind Position.next
  by_cases hc : c = '\n'
  · subst hc
    simp
  · simp [hc]

/-- Counting from the start of a source, character by character, gives the line and the column. -/
theorem advance_first (cs : List Char) : Position.first.advance cs = placeBehind cs := by
  induction cs using List.reverseRecOn with
  | nil => rfl
  | append_singleton cs c ih =>
    rw [Position.advance_append, ih, placeBehind_concat]
    rfl

/-- The place behind more characters. -/
theorem advance_placeBehind (before cs : List Char) : (placeBehind before).advance cs = placeBehind (before ++ cs) := by
  rw [← advance_first, ← advance_first, Position.advance_append]

/-! ## Up to a stray character -/

/-- The lexer reads tokens that tile the text, up to its end or to a character at which no token can be read. -/
theorem lexFrom_cases (p : Position) (start : Nat) (cs : List Char) :
    ∃ front rest, cs = sourceText front ++ rest ∧ Tiled p start rest front ∧ (∀ t ∈ front, t.kind ≠ .regex) ∧
      ((lexFrom p start cs = .ok front ∧ rest = []) ∨
        ∃ c more, lexFrom p start cs = .error ⟨c, p.advance (sourceText front)⟩ ∧ rest = c :: more ∧
          lexemeLength rest = none) := by
  induction hn : cs.length using Nat.strongRecOn generalizing p start cs with
  | ind size ih =>
    cases cs with
    | nil => exact ⟨[], [], rfl, trivial, nofun, .inl ⟨by rw [lexFrom], rfl⟩⟩
    | cons c more =>
      cases hread : lexemeLength (c :: more) with
      | none => exact ⟨[], c :: more, rfl, trivial, nofun, .inr ⟨c, more, by rw [lexFrom, hread]; rfl, rfl, hread⟩⟩
      | some found =>
        obtain ⟨kind, n⟩ := found
        obtain ⟨hpos, hle, hshape⟩ := shape_of_lexemeLength hread
        -- the text is cut behind the first token
        obtain ⟨w, after, hcs, rfl⟩ : ∃ w after, c :: more = w ++ after ∧ w.length = n :=
          ⟨_, _, (List.take_append_drop n _).symm, List.length_take_of_le hle⟩
        rw [hcs] at hread hshape hn ⊢
        rw [List.take_left] at hshape
        obtain ⟨front, rest, rfl, htiled, hkinds, hend⟩ :=
          ih after.length (by rw [← hn, List.length_append]; omega) (p.advance w) (start + w.length) after rfl
        have hlex := lexFrom_append hread p start
        refine ⟨⟨kind, String.ofList w, start, p⟩ :: front, rest, ?_, ⟨rfl, rfl, ?_, ?_⟩, ?_, ?_⟩
        · rw [sourceText_cons, String.toList_ofList, List.append_assoc]
        · exact .inl (by rw [String.toList_ofList]; exact hread)
        · rw [String.toList_ofList]
          exact htiled
        · refine List.forall_mem_cons.mpr ⟨?_, hkinds⟩
          rintro rfl
          exact hshape
        · rcases hend with ⟨hok, rfl⟩ | ⟨d, others, herror, rfl, hnone⟩
          · exact .inl ⟨by rw [hlex, hok]; rfl, rfl⟩
          · refine .inr ⟨d, others, ?_, rfl, hnone⟩
            rw [hlex, herror, sourceText_cons, String.toList_ofList, Position.advance_append]
            rfl

/-! ## Tokens in a source -/

/-- The token stands in the source: it is not empty, it is what the lexer takes at the character where it begins, and it tells the place
of that character. -/
structure Token.StandsIn (t : Token) (content : List Char) : Prop where
  nonempty : t.text ≠ ""
  text : t.text.toList <+: content.drop t.start
  read : lexemeLength (content.drop t.start) = some (t.kind, t.text.toList.length)
  position : t.position = placeBehind (content.take t.start)

/-- The tokens lie end to end in the source, the first of them at the character numbered `start`. -/
structure LaidFrom (content : List Char) (start : Nat) (ts : List Token) : Prop where
  stands : ∀ t ∈ ts, t.StandsIn content
  start : ∀ front t back, ts = front ++ t :: back → t.start = start + (sourceText front).length

theorem Tiled.laidFrom {before rest : List Char} {ts : List Token} (h : Tiled (placeBehind before) before.length rest ts)
    (hkinds : ∀ t ∈ ts, t.kind ≠ .regex) : LaidFrom (before ++ (sourceText ts ++ rest)) before.length ts := by
  have hplaced : ∀ front t back, ts = front ++ t :: back →
      t.StandsIn (before ++ (sourceText ts ++ rest)) ∧ t.start = before.length + (sourceText front).length := by
    rintro front t back rfl
    obtain ⟨-, hposition, hstart, hread, -⟩ := tiled_append_iff.mp h
    have hsplit : before ++ (sourceText (front ++ t :: back) ++ rest) =
        (before ++ sourceText front) ++ (t.text.toList ++ (sourceText back ++ rest)) := by
      simp only [sourceText_append, sourceText_cons, List.append_assoc]
    have hlength : t.start = (before ++ sourceText front).length := by rw [hstart, List.length_append]
    have hne := hread.ne_nil
    refine ⟨⟨?_, ?_, ?_, ?_⟩, hstart⟩
    · rintro hempty
      rw [hempty] at hne
      exact absurd hne (by decide)
    · rw [hsplit, hlength, List.drop_left]
      exact List.prefix_append _ _
    · rw [hsplit, hlength, List.drop_left]
      rcases hread with hread | ⟨hregex, -⟩
      · exact hread
      · exact absurd hregex (hkinds t (List.mem_append_right _ List.mem_cons_self))
    · rw [hsplit, hlength, List.take_left, hposition, advance_placeBehind]
  refine ⟨fun t ht => ?_, fun front t back hts => (hplaced front t back hts).2⟩
  obtain ⟨front, back, hts⟩ := List.append_of_mem ht
  exact (hplaced front t back hts).1

/-- A whole source is lexed from the first place on, whatever place is named. -/
theorem tokenize_eq (content : List Char) (start : Nat) :
    tokenize content start (placeBehind (content.take start)) =
      lexFrom (placeBehind (content.take start)) start (content.drop start) := by
  unfold tokenize
  by_cases hstart : start = 0
  · subst hstart
    exact tokenize_first content
  · simp only [if_neg hstart]
    cases lexFrom _ start (content.drop start) <;> rfl

end ScriptLoader.Syntax
