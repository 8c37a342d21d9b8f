import ScriptLoader.Proofs.Lexer.Lexeme

/-!
# Tokens that tile a text

The tokens of a text stand one behind the other, without gaps: each begins where the texts before it end (`Tiled`), and is what is
read there. The lexer makes such tokens (`tiled_of_lexFrom`), and so does a regular expression with what is lexed behind it
(`tiled_regex`), because it stands on one line.
-/

namespace ScriptLoader.Syntax

/-- The token is what can be read at the start of a text: what the lexer takes there, or a regular expression literal. -/
def Token.ReadAt (t : Token) (cs : List Char) : Prop :=
  lexemeLength cs = some (t.kind, t.text.toList.length) ∨ (t.kind = .regex ∧ regexLength cs = some t.text.toList.length)

theorem Token.ReadAt.ne_nil {t : Token} {cs : List Char} (h : t.ReadAt cs) : 0 < t.text.toList.length := by
  rcases h with h | ⟨_, h⟩
  · exact (shape_of_lexemeLength h).1
  · exact regexLength_pos h

/-- A token that is read where it stands looks like its class says. -/
theorem Token.ReadAt.shaped {t : Token} {cs : List Char} (h : t.ReadAt (t.text.toList ++ cs)) : t.Shaped ∨ t.kind = .regex := by
  rcases h with h | ⟨hkind, _⟩
  · have hshape := (shape_of_lexemeLength h).2.2
    rw [List.take_left] at hshape
    exact .inl hshape
  · exact .inr hkind

/-- The tokens stand one behind the other, the first one at `p` with `start` characters before it and the text `after` behind the
last one. -/
def Tiled (p : Position) (start : Nat) (after : List Char) : List Token → Prop
  | [] => True
  | t :: ts =>
    t.position = p ∧ t.start = start ∧ t.ReadAt (t.text.toList ++ (sourceText ts ++ after)) ∧
      Tiled (p.advance t.text.toList) (start + t.text.toList.length) after ts

theorem tiled_append_iff {p : Position} {start : Nat} {after : List Char} {front back : List Token} :
    Tiled p start after (front ++ back) ↔
      Tiled p start (sourceText back ++ after) front ∧
        Tiled (p.advance (sourceText front)) (start + (sourceText front).length) after back := by
  induction front generalizing p start with
  | nil => simp [Tiled]
  | cons t ts ih =>
    simp only [List.cons_append, Tiled, ih, sourceText_append, sourceText_cons, Position.advance_append, List.length_append,
      List.append_assoc, Nat.add_assoc, and_assoc]

/-- Every token begins behind the ones before it. -/
theorem Tiled.lt_start {p : Position} {start : Nat} {after : List Char} {ts : List Token} (h : Tiled p start after ts) :
    ∀ t ∈ ts, start ≤ t.start := by
  induction ts generalizing p start with
  | nil => nofun
  | cons u us ih =>
    obtain ⟨_, hstart, _, hrest⟩ := h
    intro t ht
    rcases List.mem_cons.mp ht with rfl | ht
    · exact Nat.le_of_eq hstart.symm
    · exact Nat.le_trans (Nat.le_add_right ..) (ih hrest t ht)

theorem Tiled.pairwise {p : Position} {start : Nat} {after : List Char} {ts : List Token} (h : Tiled p start after ts) :
    ts.Pairwise (·.start < ·.start) := by
  induction ts generalizing p start with
  | nil => exact .nil
  | cons u us ih =>
    obtain ⟨_, hstart, hread, hrest⟩ := h
    have hpos := hread.ne_nil
    refine .cons (fun t ht => ?_) (ih hrest)
    have hle := hrest.lt_start t ht
    omega

/-- The tokens of the lexer tile the text that was lexed. -/
theorem tiled_of_lexFrom {p : Position} {start : Nat} {cs : List Char} {ts : List Token} (h : lexFrom p start cs = .ok ts) :
    Tiled p start [] ts := by
  fun_induction lexFrom p start cs generalizing ts with
  | case1 =>
    injection h with h
    subst h
    trivial
  | case2 => cases h
  | case3 => cases h
  | case4 p start c rest kind n hlen lexeme us =>
    rename_i hus ih
    injection h with h
    subst h
    obtain ⟨hpos, hle, _⟩ := shape_of_lexemeLength hlen
    obtain ⟨m, rfl⟩ := Nat.exists_eq_succ_of_ne_zero (Nat.ne_of_gt hpos)
    have htext : lexeme ++ sourceText us = c :: rest := by
      rw [sourceText_lexFrom hus]
      simp [lexeme]
    have hcount : lexeme.length = m.succ := by
      simp only [lexeme, Nat.max_eq_right hpos, List.length_take]
      omega
    refine ⟨rfl, rfl, Or.inl ?_, ?_⟩
    · rw [String.toList_ofList, List.append_nil, htext, hcount]
      exact hlen
    · rw [String.toList_ofList]
      exact ih hus

/-! ## Regular expressions -/

theorem classEnd_le {cs : List Char} {n : Nat} (h : classEnd cs = some n) : n ≤ cs.length ∧ '\n' ∉ cs.take n := by
  fun_induction classEnd cs generalizing n with
  | case1 => nomatch h
  | case2 c cs hc ih =>
    obtain ⟨m, hm, rfl⟩ := Option.map_eq_some_iff.mp h
    obtain ⟨hle, hline⟩ := ih hm
    refine ⟨Nat.succ_le_succ (Nat.succ_le_succ hle), ?_⟩
    simp only [List.take_succ_cons, List.mem_cons, not_or]
    exact ⟨by decide, Ne.symm hc, hline⟩
  | case3 cs _ =>
    injection h with h
    subst h
    exact ⟨Nat.succ_le_succ (Nat.zero_le _), by simp⟩
  | case4 => nomatch h
  | case5 c cs _ hc hbad ih =>
    obtain ⟨m, hm, rfl⟩ := Option.map_eq_some_iff.mp h
    obtain ⟨hle, hline⟩ := ih hm
    simp only [Bool.or_eq_true, decide_eq_true_eq, not_or] at hbad
    refine ⟨Nat.succ_le_succ hle, ?_⟩
    rw [List.take_succ_cons, List.mem_cons, not_or]
    exact ⟨Ne.symm hbad.2, hline⟩
  | case6 => nomatch h

theorem regexBodyEnd_le {cs : List Char} {n : Nat} (h : regexBodyEnd cs = some n) : n ≤ cs.length ∧ '\n' ∉ cs.take n := by
  fun_induction regexBodyEnd cs generalizing n with
  | case1 => nomatch h
  | case2 rest =>
    injection h with h
    subst h
    exact ⟨Nat.succ_le_succ (Nat.zero_le _), by simp⟩
  | case3 => nomatch h
  | case4 => nomatch h
  | case5 d more hd _ _ ih =>
    obtain ⟨m, hm, rfl⟩ := Option.map_eq_some_iff.mp h
    obtain ⟨hle, hmore⟩ := ih hm
    refine ⟨Nat.succ_le_succ (Nat.succ_le_succ hle), ?_⟩
    simp only [List.take_succ_cons, List.mem_cons, not_or]
    exact ⟨by decide, Ne.symm hd, hmore⟩
  | case6 => nomatch h
  | case7 rest k hk _ _ _ ih =>
    -- a class of characters stands in front
    obtain ⟨m, hm, rfl⟩ := Option.map_eq_some_iff.mp h
    obtain ⟨hle, hclass⟩ := classEnd_le hk
    obtain ⟨hle', hmore⟩ := ih hm
    rw [List.length_drop] at hle'
    refine ⟨?_, ?_⟩
    · rw [List.length_cons]
      omega
    · rw [show m + (k + 1) = k + m + 1 by omega, List.take_succ_cons, List.take_add, List.mem_cons, List.mem_append]
      rintro (hc | hc | hc)
      · nomatch hc
      · exact hclass hc
      · exact hmore hc
  | case8 => nomatch h
  | case9 c rest _ hline _ _ ih =>
    obtain ⟨m, hm, rfl⟩ := Option.map_eq_some_iff.mp h
    obtain ⟨hle, hmore⟩ := ih hm
    refine ⟨Nat.succ_le_succ hle, ?_⟩
    rw [List.take_succ_cons, List.mem_cons, not_or]
    exact ⟨Ne.symm hline, hmore⟩

/-- A regular expression literal is there, and stands on one line. -/
theorem regexLength_le {cs : List Char} {n : Nat} (h : regexLength cs = some n) : n ≤ cs.length ∧ '\n' ∉ cs.take n := by
  unfold regexLength at h
  split at h
  · rename_i c cs
    split at h
    · nomatch h
    obtain ⟨m, hm, rfl⟩ := Option.map_eq_some_iff.mp h
    obtain ⟨hle, hbody⟩ := regexBodyEnd_le hm
    have hflags := run_le Char.isAlpha ((c :: cs).drop m)
    rw [List.length_drop] at hflags
    refine ⟨?_, ?_⟩
    · rw [List.length_cons]
      omega
    · rw [Nat.add_assoc, Nat.add_comm 1, List.take_succ_cons, List.take_add, List.mem_cons, List.mem_append]
      rintro (hc | hc | hc)
      · nomatch hc
      · exact hbody hc
      · exact absurd (all_take_run Char.isAlpha _ _ hc) (by decide)
  · nomatch h

/-- Where no line ends, the column is all that changes. -/
theorem Position.advance_of_line {cs : List Char} (h : '\n' ∉ cs) (p : Position) : p.advance cs = ⟨p.line, p.column + cs.length⟩ := by
  induction cs generalizing p with
  | nil => rfl
  | cons c cs ih =>
    rw [List.mem_cons, not_or] at h
    show (p.next c).advance cs = _
    rw [ih h.2, Position.next, if_neg (Ne.symm h.1), List.length_cons, Nat.add_assoc, Nat.add_comm 1]

/-- A regular expression at the start of a text and the tokens of what is behind it tile the text. -/
theorem tiled_regex {p : Position} {start n : Nat} {cs : List Char} {us : List Token} (hn : regexLength cs = some n)
    (hus : lexFrom ⟨p.line, p.column + (cs.take n).length⟩ (start + (cs.take n).length) (cs.drop n) = .ok us) :
    sourceText (⟨.regex, String.ofList (cs.take n), start, p⟩ :: us) = cs ∧
      Tiled p start [] (⟨.regex, String.ofList (cs.take n), start, p⟩ :: us) := by
  obtain ⟨hle, hline⟩ := regexLength_le hn
  have htext : cs.take n ++ sourceText us = cs := by rw [sourceText_lexFrom hus, List.take_append_drop]
  have htile := tiled_of_lexFrom hus
  rw [← Position.advance_of_line hline] at htile
  refine ⟨by rw [sourceText_cons, String.toList_ofList, htext], rfl, rfl, Or.inr ⟨rfl, ?_⟩, ?_⟩
  · rw [String.toList_ofList, List.append_nil, htext, List.length_take_of_le hle]
    exact hn
  · rw [String.toList_ofList]
    exact htile

end ScriptLoader.Syntax
