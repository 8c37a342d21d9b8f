import Mathlib
import ScriptLoader.Proofs.Lexer.Places

/-!
# Lexing from a token on

What the lexer makes of a text is the one way to lay tokens of its classes end to end on it (`lexFrom_eq_ok_iff`). No class looks at
what stands before a token, so the lexer can begin at any token it has made: from its first character and its place on it makes that
token and all behind it again (`tokenize_resumes`). Two lexings of one source, one of which may begin behind a regular expression
literal of the other, are the same from the first character on at which both have a token begin.
-/

namespace ScriptLoader.Syntax

/-- Tokens of the lexer's classes that tile a text are what the lexer makes of it. -/
theorem lexFrom_of_tiled {p : Position} {start : Nat} {ts : List Token} (htiled : Tiled p start [] ts)
    (hkinds : ∀ t ∈ ts, t.kind ≠ .regex) : lexFrom p start (sourceText ts) = .ok ts := by
  induction ts generalizing p start with
  | nil => rw [sourceText_nil, lexFrom]
  | cons t ts ih =>
    obtain ⟨rfl, rfl, hread, hrest⟩ := htiled
    rw [List.forall_mem_cons] at hkinds
    rw [List.append_nil] at hread
    have hlex := hread.resolve_right fun h => hkinds.1 h.1
    rw [sourceText_cons, lexFrom_append hlex, ih hrest hkinds.2, String.ofList_toList]
    rfl

/-- The lexer makes tokens of its own classes, which tile the text, and there is one way to do so. -/
theorem lexFrom_eq_ok_iff {p : Position} {start : Nat} {cs : List Char} {ts : List Token} :
    lexFrom p start cs = .ok ts ↔ sourceText ts = cs ∧ Tiled p start [] ts ∧ ∀ t ∈ ts, t.kind ≠ .regex := by
  constructor
  · intro h
    refine ⟨sourceText_lexFrom h, tiled_of_lexFrom h, ?_⟩
    obtain ⟨front, rest, -, -, hkinds, ⟨hok, -⟩ | ⟨_, _, herror, -⟩⟩ := lexFrom_cases p start cs
    · obtain rfl : front = ts := Except.ok.inj (hok.symm.trans h)
      exact hkinds
    · cases herror.symm.trans h
  · rintro ⟨rfl, htiled, hkinds⟩
    exact lexFrom_of_tiled htiled hkinds

/-- Behind its first tokens the lexer goes on as it would begin there. -/
theorem lexFrom_back {p : Position} {start : Nat} {cs : List Char} {front back : List Token}
    (h : lexFrom p start cs = .ok (front ++ back)) :
    lexFrom (p.advance (sourceText front)) (start + (sourceText front).length) (cs.drop (sourceText front).length) = .ok back := by
  obtain ⟨rfl, htiled, hkinds⟩ := lexFrom_eq_ok_iff.mp h
  rw [sourceText_append, List.drop_left]
  exact lexFrom_of_tiled (tiled_append_iff.mp htiled).2 fun t ht => hkinds t (List.mem_append_right _ ht)

/-- A token tells its own place: the one behind the text from where the lexer began up to the token's first character. -/
theorem start_position_of_lexFrom {p : Position} {start : Nat} {content : List Char} {front back : List Token} {t : Token}
    (h : lexFrom p start (content.drop start) = .ok (front ++ t :: back)) :
    t.start = start + (sourceText front).length ∧ t.position = p.advance ((content.drop start).take (t.start - start)) := by
  obtain ⟨htext, htiled, -⟩ := lexFrom_eq_ok_iff.mp h
  obtain ⟨-, hposition, hstart, -⟩ := tiled_append_iff.mp htiled
  refine ⟨hstart, ?_⟩
  rw [hstart, Nat.add_sub_cancel_left, ← htext, sourceText_append, List.take_left]
  exact hposition

/-- From the start and the position that a token tells, the lexer makes the token and all behind it again. -/
theorem lexFrom_at_token {p : Position} {start : Nat} {content : List Char} {front back : List Token} {t : Token}
    (h : lexFrom p start (content.drop start) = .ok (front ++ t :: back)) :
    lexFrom t.position t.start (content.drop t.start) = .ok (t :: back) := by
  obtain ⟨-, hposition, hstart, -⟩ := tiled_append_iff.mp (tiled_of_lexFrom h)
  have hback := lexFrom_back h
  rwa [List.drop_drop, ← hstart, ← hposition] at hback

/-- Two lexings of a source, the second of which begins at a character of the first and at the place of it, are the same from where a
token begins at the same character in both. -/
theorem lexings_agree {p : Position} {start k : Nat} {content : List Char} {ts us vs ws : List Token} {t u : Token}
    (ht : lexFrom p start (content.drop start) = .ok (ts ++ t :: vs))
    (hu : lexFrom (p.advance ((content.drop start).take k)) (start + k) (content.drop (start + k)) = .ok (us ++ u :: ws))
    (hstart : u.start = t.start) : u :: ws = t :: vs := by
  obtain ⟨-, htposition⟩ := start_position_of_lexFrom ht
  obtain ⟨hustart, huposition⟩ := start_position_of_lexFrom hu
  have hsplit : t.start - start = k + (u.start - (start + k)) := by omega
  have hposition : u.position = t.position := by
    rw [huposition, htposition, hsplit, List.take_add, Position.advance_append, List.drop_drop]
  have hut := lexFrom_at_token hu
  rw [hstart, hposition, lexFrom_at_token ht] at hut
  exact (Except.ok.inj hut).symm

/-! ## Whole sources -/

/-- What is made from a character on is what the lexer makes there; at the first character the place is always the first one. -/
theorem lexFrom_of_tokenize_from {content : List Char} {start : Nat} {p : Position} {ts : List Token}
    (h : tokenize content start p = .ok ts) :
    lexFrom (if start = 0 then .first else p) start (content.drop start) = .ok ts := by
  unfold tokenize at h
  split at h
  · cases h
  · rename_i us hus
    by_cases hstart : start = 0
    · subst hstart
      exact h
    · rw [if_neg hstart] at h ⊢
      exact hus.trans h

theorem tokenize_of_lexFrom {content : List Char} {start : Nat} {p : Position} {ts : List Token} (hp : start = 0 → p = .first)
    (h : lexFrom p start (content.drop start) = .ok ts) : tokenize content start p = .ok ts := by
  unfold tokenize
  rw [h]
  by_cases hstart : start = 0
  · obtain rfl := hp hstart
    subst hstart
    exact h
  · exact if_neg hstart

end ScriptLoader.Syntax
