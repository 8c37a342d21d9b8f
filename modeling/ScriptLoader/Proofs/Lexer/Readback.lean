import ScriptLoader.Proofs.Lexer.Meaning
import ScriptLoader.Proofs.Lexer.Munch

/-!
# Reading a text back

Some tokens of the lexer, put together again, are read back as these tokens, trivia aside, exactly if no token runs into the text
behind it (`Separate`) and no line comment takes up what stands behind it (`EndsComments`). The one proviso is `CutsNothing`: a line
comment that goes on into a comment or a text of several lines leaves the rest of that behind, and what this rest says is anyone's
guess.
-/

namespace ScriptLoader.Syntax

open ScriptLoader.Text

theorem drop_cons_of_pos {n : Nat} (h : 0 < n) {α : Type} (a : α) (as : List α) : (a :: as).drop n = as.drop (n - 1) := by
  cases n with
  | zero => nomatch h
  | succ n => rfl

theorem drop_length_takeWhile {α : Type} (p : α → Bool) (as : List α) : as.drop (as.takeWhile p).length = as.dropWhile p := by
  induction as with
  | nil => rfl
  | cons a as ih =>
    cases h : p a with
    | true => rw [List.takeWhile_cons_of_pos h, List.dropWhile_cons_of_pos h, List.length_cons, List.drop_succ_cons, ih]
    | false =>
      rw [List.takeWhile_cons_of_neg (by rw [h]; nofun), List.dropWhile_cons_of_neg (by rw [h]; nofun), List.length_nil,
        List.drop_zero]

/-! ## What a text says -/

/-- The lexer reads the text to its end, and this is what it finds there, trivia aside. -/
inductive Says : List Char → List Lexeme → Prop where
  | nil : Says [] []
  | trivia {cs : List Char} {k : TokenKind} {n : Nat} {ms : List Lexeme} (hread : lexemeLength cs = some (k, n))
      (hk : k.isTrivia = true) (hrest : Says (cs.drop n) ms) : Says cs ms
  | token {cs : List Char} {k : TokenKind} {n : Nat} {ms : List Lexeme} (hread : lexemeLength cs = some (k, n))
      (hk : k.isTrivia = false) (hrest : Says (cs.drop n) ms) : Says cs ((k, String.ofList (cs.take n)) :: ms)

theorem says_nil_iff {ms : List Lexeme} : Says [] ms ↔ ms = [] := by
  constructor
  · intro h
    cases h with
    | nil => rfl
    | trivia hread => nomatch hread
    | token hread => nomatch hread
  · rintro rfl
    exact .nil

theorem says_iff_of_trivia {cs : List Char} {k : TokenKind} {n : Nat} {ms : List Lexeme}
    (hread : lexemeLength cs = some (k, n)) (hk : k.isTrivia = true) : Says cs ms ↔ Says (cs.drop n) ms := by
  refine ⟨fun h => ?_, .trivia hread hk⟩
  cases h with
  | nil => nomatch hread
  | trivia hread' _ hrest =>
    rw [hread] at hread'
    injection hread' with heq
    injection heq with _ hn
    rw [hn]
    exact hrest
  | token hread' hk' =>
    rw [hread] at hread'
    injection hread' with heq
    injection heq with heq _
    rw [heq, hk'] at hk
    nomatch hk

theorem says_iff_of_token {cs : List Char} {k : TokenKind} {n : Nat} {ms : List Lexeme}
    (hread : lexemeLength cs = some (k, n)) (hk : k.isTrivia = false) :
    Says cs ms ↔ ∃ ms', ms = (k, String.ofList (cs.take n)) :: ms' ∧ Says (cs.drop n) ms' := by
  constructor
  · intro h
    cases h with
    | nil => nomatch hread
    | trivia hread' hk' =>
      rw [hread] at hread'
      injection hread' with heq
      injection heq with heq _
      rw [heq, hk'] at hk
      nomatch hk
    | token hread' _ hrest =>
      rw [hread] at hread'
      injection hread' with heq
      injection heq with hk' hn
      subst hk' hn
      exact ⟨_, rfl, hrest⟩
  · rintro ⟨ms', rfl, hrest⟩
    exact .token hread hk hrest

/-- A text that says something is read from its first token on. -/
theorem Says.read {cs : List Char} {ms : List Lexeme} (h : Says cs ms) (hne : cs ≠ []) :
    ∃ k n, lexemeLength cs = some (k, n) := by
  cases h with
  | nil => exact absurd rfl hne
  | trivia hread => exact ⟨_, _, hread⟩
  | token hread => exact ⟨_, _, hread⟩

/-- What a text says is what the lexer makes of it, from any place. -/
theorem says_iff_lexFrom {cs : List Char} {ms : List Lexeme} (p : Position) (start : Nat) :
    Says cs ms ↔ ∃ ts, lexFrom p start cs = .ok ts ∧ lexemes ts = ms := by
  fun_induction lexFrom p start cs generalizing ms with
  | case1 =>
    rw [says_nil_iff]
    constructor
    · rintro rfl
      exact ⟨[], rfl, rfl⟩
    · rintro ⟨ts, hts, rfl⟩
      injection hts with hts
      subst hts
      rfl
  | case2 p start c rest hread =>
    constructor
    · intro h
      obtain ⟨k, n, hread'⟩ := h.read (List.cons_ne_nil _ _)
      rw [hread] at hread'
      cases hread'
    · rintro ⟨ts, hts, _⟩
      cases hts
  | case3 p start c rest k n hread lexeme e =>
    rename_i he ih
    have hdrop : (c :: rest).drop n = rest.drop (n - 1) := drop_cons_of_pos (shape_of_lexemeLength hread).1 c rest
    have hnot : ∀ ms, ¬Says ((c :: rest).drop n) ms := by
      intro ms h
      rw [hdrop] at h
      obtain ⟨ts, hts, _⟩ := ih.mp h
      rw [he] at hts
      cases hts
    constructor
    · intro h
      cases hk : k.isTrivia with
      | true => exact absurd ((says_iff_of_trivia hread hk).mp h) (hnot _)
      | false =>
        obtain ⟨ms', _, hrest⟩ := (says_iff_of_token hread hk).mp h
        exact absurd hrest (hnot _)
    · rintro ⟨ts, hts, _⟩
      cases hts
  | case4 p start c rest k n hread lexeme us =>
    rename_i hus ih
    have hpos := (shape_of_lexemeLength hread).1
    have hdrop : (c :: rest).drop n = rest.drop (n - 1) := drop_cons_of_pos hpos c rest
    have htext : lexeme = (c :: rest).take n := by simp only [lexeme, Nat.max_eq_right hpos]
    have hrest : ∀ ms, Says ((c :: rest).drop n) ms ↔ lexemes us = ms := by
      intro ms
      rw [hdrop, ih]
      constructor
      · rintro ⟨ts, hts, heq⟩
        rw [hus] at hts
        injection hts with hts
        rw [hts]
        exact heq
      · exact fun heq => ⟨us, hus, heq⟩
    have hsame : ∀ ms, (∃ ts, (Except.ok (⟨k, String.ofList lexeme, start, p⟩ :: us) : Except Stray _) = .ok ts ∧ lexemes ts = ms) ↔
        lexemes (⟨k, String.ofList lexeme, start, p⟩ :: us) = ms := by
      intro ms
      constructor
      · rintro ⟨ts, hts, heq⟩
        exact Except.ok.inj hts ▸ heq
      · exact fun heq => ⟨_, rfl, heq⟩
    rw [hsame]
    cases hk : k.isTrivia with
    | true => rw [says_iff_of_trivia hread hk, hrest, lexemes_cons_of_trivia (t := ⟨k, String.ofList lexeme, start, p⟩) hk]
    | false =>
      rw [says_iff_of_token hread hk, lexemes_cons_of_not (t := ⟨k, String.ofList lexeme, start, p⟩) hk]
      constructor
      · rintro ⟨ms', rfl, h⟩
        rw [(hrest ms').mp h, Token.lexeme, htext]
      · rintro rfl
        exact ⟨lexemes us, by rw [Token.lexeme, htext], (hrest _).mpr rfl⟩

/-! ## A token in front of a text -/

section Front

variable {w cs : List Char} {ms : List Lexeme}

theorem says_drop_blanks (cs : List Char) : Says (cs.drop (run isBlankChar cs)) ms ↔ Says cs ms := by
  cases hn : run isBlankChar cs with
  | zero => rw [List.drop_zero]
  | succ n =>
    -- the blanks at the front are one token
    have hshape : Shape .blank (cs.take (run isBlankChar cs)) := by
      refine ⟨fun hnil => ?_, all_take_run isBlankChar cs⟩
      have hlen := congrArg List.length hnil
      rw [List.length_take, Nat.min_eq_left (run_le _ _), hn] at hlen
      nomatch hlen
    have hbehind : run isBlankChar (cs.drop (run isBlankChar cs)) = 0 := by
      have h := run_append_of_all (all_take_run isBlankChar cs) (cs.drop (run isBlankChar cs))
      rw [List.take_append_drop, List.length_take, Nat.min_eq_left (run_le _ _)] at h
      omega
    have hread := lexemeLength_blank hshape (cs.drop (run isBlankChar cs))
    rw [List.take_append_drop, hbehind, Nat.add_zero, List.length_take, Nat.min_eq_left (run_le _ _), hn] at hread
    exact (says_iff_of_trivia hread rfl).symm

theorem says_blank (h : Shape .blank w) : Says (w ++ cs) ms ↔ Says cs ms := by
  rw [says_iff_of_trivia (lexemeLength_blank h cs) rfl, List.drop_append, List.drop_eq_nil_of_le (Nat.le_add_right _ _),
    Nat.add_sub_cancel_left, List.nil_append]
  exact says_drop_blanks cs

theorem says_blockComment (h : Shape .blockComment w) : Says (w ++ cs) ms ↔ Says cs ms := by
  rw [says_iff_of_trivia (lexemeLength_blockComment h cs) rfl, List.drop_left]

/-- A line comment takes up all that stands before the next line break. -/
theorem says_lineComment (h : Shape .lineComment w) : Says (w ++ cs) ms ↔ Says (cs.dropWhile (· != '\n')) ms := by
  rw [says_iff_of_trivia (lexemeLength_lineComment h cs) rfl, List.drop_append, List.drop_eq_nil_of_le (Nat.le_add_right _ _),
    Nat.add_sub_cancel_left, List.nil_append, run, drop_length_takeWhile]

theorem not_trivia_iff {k : TokenKind} : k.isTrivia = false ↔ k ≠ .blank ∧ k ≠ .lineComment ∧ k ≠ .blockComment := by
  cases k <;> decide

/-- A token that is no trivia does not begin as trivia do. -/
theorem head_of_token {k : TokenKind} (h : Shape k w) (hk : k.isTrivia = false) (hslash : w ≠ ['/'] ∧ w ≠ ['/', '=']) :
    ∃ c body, w = c :: body ∧ isBlankChar c = false ∧ c ≠ '/' := by
  cases k with
  | lineComment => nomatch hk
  | blockComment => nomatch hk
  | blank => nomatch hk
  | regex => exact h.elim
  | string =>
    obtain ⟨q, body, rfl, rfl | rfl, _⟩ := h
    · exact ⟨_, body, rfl, by decide, by decide⟩
    · exact ⟨_, body, rfl, by decide, by decide⟩
  | template =>
    obtain ⟨body, rfl, _⟩ := h
    exact ⟨_, body, rfl, by decide, by decide⟩
  | number =>
    obtain ⟨d, body, rfl | rfl, hd, _⟩ := h
    · refine ⟨d, body, rfl, isBlankChar_of_isDecimalDigit hd, ?_⟩
      rintro rfl
      exact absurd hd (by decide)
    · exact ⟨_, d :: body, rfl, by decide, by decide⟩
  | identifier =>
    obtain ⟨c, body, rfl, hstart, _, hblank, _⟩ := h
    refine ⟨c, body, rfl, hblank, ?_⟩
    rintro rfl
    exact absurd hstart (by decide)
  | punctuation =>
    obtain ⟨c, body, rfl, hbegins, _⟩ := punctuation_head h hslash
    simp only [beginsMark, Bool.and_eq_true, Bool.not_eq_true'] at hbegins
    refine ⟨c, body, rfl, hbegins.1.1.2, ?_⟩
    rintro rfl
    exact absurd hbegins.1.1.1 (by decide)

/-- A text with this character at its front does not begin with trivia. -/
theorem not_trivia_of_head {c : Char} {body : List Char} {k : TokenKind} {n : Nat}
    (hread : lexemeLength (c :: body) = some (k, n)) (hblank : isBlankChar c = false) (hslash : c ≠ '/') : k.isTrivia = false := by
  obtain ⟨hpos, _, hshape⟩ := shape_of_lexemeLength hread
  obtain ⟨m, rfl⟩ := Nat.exists_eq_add_of_le' hpos
  rw [List.take_succ_cons] at hshape
  cases k with
  | lineComment =>
    obtain ⟨_, heq, _⟩ := hshape
    exact absurd (List.cons.inj heq).1 hslash
  | blockComment =>
    obtain ⟨_, heq, _⟩ := hshape
    exact absurd (List.cons.inj heq).1 hslash
  | blank =>
    rw [hshape.2 c List.mem_cons_self] at hblank
    nomatch hblank
  | string => rfl
  | template => rfl
  | number => rfl
  | identifier => rfl
  | punctuation => rfl
  | regex => rfl

/-- A token is read back in front of a text exactly if it does not run into it. -/
theorem says_token {k : TokenKind} (h : Shape k w) (hk : k.isTrivia = false) (hslash : w ≠ ['/'] ∧ w ≠ ['/', '=']) :
    Says (w ++ cs) ((k, String.ofList w) :: ms) ↔ runsInto k w cs = false ∧ Says cs ms := by
  have hiff := lexemeLength_append_iff h (not_trivia_iff.mp hk) hslash cs
  constructor
  · intro hmeans
    obtain ⟨c, body, rfl, hblank, hne⟩ := head_of_token h hk hslash
    obtain ⟨k', n, hread⟩ := hmeans.read (by nofun)
    obtain ⟨ms', heq, hrest⟩ := (says_iff_of_token hread (not_trivia_of_head hread hblank hne)).mp hmeans
    obtain ⟨hlexeme, rfl⟩ := List.cons.inj heq
    obtain ⟨rfl, htext⟩ := Prod.mk.inj hlexeme
    have hlen : (c :: body).length = n := by
      have h := congrArg List.length (String.ofList_injective htext)
      rw [List.length_take, Nat.min_eq_left (shape_of_lexemeLength hread).2.1] at h
      exact h
    rw [← hlen, List.drop_left] at hrest
    exact ⟨hiff.mp (hlen ▸ hread), hrest⟩
  · rintro ⟨hruns, hmeans⟩
    refine (says_iff_of_token (hiff.mpr hruns) hk).mpr ⟨ms, ?_, ?_⟩
    · rw [List.take_left]
    · rw [List.drop_left]
      exact hmeans

end Front

/-! ## Tokens put together -/

/-- No token runs into the text of those behind it. -/
def Separate : List Token → Prop
  | [] => True
  | t :: ts => (t.isTrivia = false → runsInto t.kind t.text.toList (sourceText ts) = false) ∧ Separate ts

theorem separate_cons_of_trivia {t : Token} (h : t.isTrivia = true) (ts : List Token) : Separate (t :: ts) ↔ Separate ts :=
  ⟨And.right, fun hs => ⟨fun hne => absurd (hne.symm.trans h) (by decide), hs⟩⟩

/-- Only blanks and comments stand before the next line break, and the break itself stands in a blank. -/
def Resumes : List Token → Prop
  | [] => True
  | t :: ts => t.isTrivia = true ∧ (t.breaksLine = true ∨ ('\n' ∉ t.text.toList ∧ Resumes ts))

/-- What stands behind a line comment, before the next line break, is blank or a comment. -/
def EndsComments : List Token → Prop
  | [] => True
  | t :: ts => (t.kind = .lineComment → Resumes ts) ∧ EndsComments ts

/-- The next line break stands in a blank. -/
def BreaksInBlank : List Token → Prop
  | [] => True
  | t :: ts => t.breaksLine = true ∨ ('\n' ∉ t.text.toList ∧ BreaksInBlank ts)

/-- The line break that ends a line comment stands in a blank. -/
def CutsNothing : List Token → Prop
  | [] => True
  | t :: ts => (t.kind = .lineComment → BreaksInBlank ts) ∧ CutsNothing ts

/-- A token of the lexer that is no slash. -/
def Token.Lexed (t : Token) : Prop := t.Shaped ∧ t.text ≠ "/" ∧ t.text ≠ "/="

namespace Token.Lexed

variable {t : Token} {cs : List Char} {ms : List Lexeme}

theorem no_slash (h : t.Lexed) : t.text.toList ≠ ['/'] ∧ t.text.toList ≠ ['/', '='] := by
  constructor
  · exact fun heq => h.2.1 (String.toList_inj.mp heq)
  · exact fun heq => h.2.2 (String.toList_inj.mp heq)

/-- Blanks and comments in brackets say nothing, and what is behind them is read as it is. -/
theorem says_trivia (h : t.Lexed) (ht : t.isTrivia = true) (hline : t.kind ≠ .lineComment) :
    Says (t.text.toList ++ cs) ms ↔ Says cs ms := by
  have hshape : Shape t.kind t.text.toList := h.1
  rw [Token.isTrivia, Bool.or_eq_true, Bool.or_eq_true, beq_iff_eq, beq_iff_eq, beq_iff_eq] at ht
  rcases ht with (hk | hk) | hk
  · rw [hk] at hshape
    exact says_blank hshape
  · exact absurd hk hline
  · rw [hk] at hshape
    exact says_blockComment hshape

theorem says_line (h : t.Lexed) (hline : t.kind = .lineComment) :
    Says (t.text.toList ++ cs) ms ↔ Says (cs.dropWhile (· != '\n')) ms := by
  have hshape : Shape t.kind t.text.toList := h.1
  rw [hline] at hshape
  exact says_lineComment hshape

theorem says_meaning (h : t.Lexed) (ht : t.isTrivia = false) :
    Says (t.text.toList ++ cs) (t.lexeme :: ms) ↔ runsInto t.kind t.text.toList cs = false ∧ Says cs ms := by
  have hiff : Says (_ ++ cs) (_ :: ms) ↔ _ := says_token h.1 ht h.no_slash
  rw [String.ofList_toList] at hiff
  exact hiff

/-- From a line break in a blank on, the rest of the blank is left. -/
theorem dropWhile_break (h : t.Lexed) (ht : t.breaksLine = true) (cs : List Char) :
    ∃ w, Shape .blank w ∧ (t.text.toList ++ cs).dropWhile (· != '\n') = w ++ cs := by
  rw [breaksLine, Bool.and_eq_true, beq_iff_eq, List.contains_iff_mem] at ht
  have hshape : Shape t.kind t.text.toList := h.1
  rw [ht.1] at hshape
  have hne : t.text.toList.dropWhile (· != '\n') ≠ [] := by
    intro hnil
    have hall : t.text.toList.takeWhile (· != '\n') = t.text.toList := by
      have h := List.takeWhile_append_dropWhile (p := (· != '\n')) (l := t.text.toList)
      rw [hnil, List.append_nil] at h
      exact h
    exact absurd (List.all_eq_true.mp (List.all_takeWhile (p := (· != '\n'))) '\n' (hall.symm ▸ ht.2)) (by decide)
  refine ⟨t.text.toList.dropWhile (· != '\n'), ⟨hne, fun c hc => ?_⟩, ?_⟩
  · exact hshape.2 c ((List.dropWhile_sublist _).mem hc)
  · rw [List.dropWhile_append, if_neg (by rw [List.isEmpty_iff]; exact hne)]

/-- A text without a line break is dropped as a whole. -/
theorem dropWhile_no_break (ht : '\n' ∉ t.text.toList) (cs : List Char) :
    (t.text.toList ++ cs).dropWhile (· != '\n') = cs.dropWhile (· != '\n') := by
  refine List.dropWhile_append_of_pos fun c hc => ?_
  rw [bne_iff_ne]
  rintro rfl
  exact ht hc

end Token.Lexed

/-- Where line comments are ended, tokens put together are read back exactly if none runs into what is behind it. -/
theorem says_iff_separate {ts : List Token} (hlexed : ∀ t ∈ ts, t.Lexed) (hends : EndsComments ts) :
    (Says (sourceText ts) (lexemes ts) ↔ Separate ts) ∧
      (Resumes ts → (Says ((sourceText ts).dropWhile (· != '\n')) (lexemes ts) ↔ Separate ts)) := by
  induction ts with
  | nil => exact ⟨iff_of_true .nil trivial, fun _ => iff_of_true .nil trivial⟩
  | cons t ts ih =>
    have ht := hlexed t List.mem_cons_self
    obtain ⟨ih, ihline⟩ := ih (fun u hu => hlexed u (List.mem_cons_of_mem _ hu)) hends.2
    rw [sourceText_cons]
    constructor
    · cases htrivia : t.isTrivia with
      | false =>
        rw [lexemes_cons_of_not htrivia, ht.says_meaning htrivia, ih, Separate]
        exact and_congr_left fun _ => ⟨fun h _ => h, fun h => h htrivia⟩
      | true =>
        rw [lexemes_cons_of_trivia htrivia, separate_cons_of_trivia htrivia]
        by_cases hline : t.kind = .lineComment
        · rw [ht.says_line hline]
          exact ihline (hends.1 hline)
        · rw [ht.says_trivia htrivia hline]
          exact ih
    · rintro ⟨htrivia, hbreak | ⟨hnone, hresumes⟩⟩
      · obtain ⟨w, hw, heq⟩ := ht.dropWhile_break hbreak (sourceText ts)
        rw [heq, says_blank hw, lexemes_cons_of_trivia htrivia, separate_cons_of_trivia htrivia]
        exact ih
      · rw [Token.Lexed.dropWhile_no_break hnone, lexemes_cons_of_trivia htrivia, separate_cons_of_trivia htrivia]
        exact ihline hresumes

end ScriptLoader.Syntax
