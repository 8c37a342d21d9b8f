import ScriptLoader.Proofs.Lexer.Readback

/-!
# How much a reading finds

Tokens put together may be read back as others, but never as more: the characters that are not blank (`ink`), counted over all that a
reading finds, are at most those of the tokens themselves, and fewer where a line comment takes up a token
(`bounded_ink`). So a text that is read back as its tokens has its line comments ended.
-/

namespace ScriptLoader.Syntax

open ScriptLoader.Text

/-- The characters that are not blank. -/
def ink (cs : List Char) : Nat := cs.countP fun c => !isBlankChar c

theorem ink_append (cs ds : List Char) : ink (cs ++ ds) = ink cs + ink ds := List.countP_append

theorem ink_nil : ink [] = 0 := rfl

theorem ink_of_blank {cs : List Char} (h : ∀ c ∈ cs, isBlankChar c = true) : ink cs = 0 := by
  rw [ink, List.countP_eq_zero]
  intro c hc
  rw [h c hc]
  nofun

/-- The ink of what a text says. -/
def inkOf : List Lexeme → Nat
  | [] => 0
  | m :: ms => ink m.2.toList + inkOf ms

/-! ## Texts without quotes and slashes -/

/-- Where a token begins with another character than a quote or a slash, all its characters are such. -/
theorem not_isGuard_of_shape {k : TokenKind} {c : Char} {body : List Char} (h : Shape k (c :: body)) (hc : isGuard c = false) :
    ∀ x ∈ c :: body, isGuard x = false := by
  cases k with
  | lineComment =>
    obtain ⟨_, heq, _⟩ := h
    rw [(List.cons.inj heq).1] at hc
    exact absurd hc (by decide)
  | blockComment =>
    obtain ⟨_, heq, _⟩ := h
    rw [(List.cons.inj heq).1] at hc
    exact absurd hc (by decide)
  | string =>
    obtain ⟨q, _, heq, rfl | rfl, _⟩ := h
    · rw [(List.cons.inj heq).1] at hc
      exact absurd hc (by decide)
    · rw [(List.cons.inj heq).1] at hc
      exact absurd hc (by decide)
  | template =>
    obtain ⟨_, heq, _⟩ := h
    rw [(List.cons.inj heq).1] at hc
    exact absurd hc (by decide)
  | blank => exact fun x hx => isGuard_of_isBlankChar (h.2 x hx)
  | regex => exact h.elim
  | identifier =>
    obtain ⟨d, more, heq, hstart, _, _, hall⟩ := h
    obtain ⟨rfl, rfl⟩ := List.cons.inj heq
    intro x hx
    rcases List.mem_cons.mp hx with rfl | hx
    · exact hc
    · exact isGuard_of_isNamePart (hall x hx)
  | number =>
    obtain ⟨d, tail, heq, hd, htail⟩ := h
    have hrest : ∀ x ∈ tail, isGuard x = false := by
      rcases htail with hall | ⟨a, b, rfl, ha, hb⟩
      · exact fun x hx => isGuard_of_isNumberPart (hall x hx)
      · intro x hx
        rcases List.mem_append.mp hx with hx | hx
        · exact isGuard_of_isNumberPart (ha x hx)
        rcases List.mem_cons.mp hx with rfl | hx
        · decide
        · exact isGuard_of_isNumberPart (hb x hx)
    intro x hx
    rcases heq with heq | heq
    · rw [heq] at hx
      rcases List.mem_cons.mp hx with rfl | hx
      · exact isGuard_of_isDecimalDigit hd
      · exact hrest x hx
    · rw [heq] at hx
      rcases List.mem_cons.mp hx with rfl | hx
      · decide
      rcases List.mem_cons.mp hx with rfl | hx
      · exact isGuard_of_isDecimalDigit hd
      · exact hrest x hx
  | punctuation =>
    rcases h with hmem | ⟨d, _, heq⟩
    · have hops : ∀ op ∈ operators, op.head?.any (fun c => !isGuard c) = true → op.any isGuard = false := by decide
      have hnone := hops _ hmem (by rw [List.head?_cons, Option.any_some, hc]; rfl)
      exact fun x hx => Bool.eq_false_iff.mpr (List.any_eq_false.mp hnone x hx)
    · obtain ⟨rfl, rfl⟩ := List.cons.inj heq
      intro x hx
      rw [List.mem_singleton.mp hx]
      exact hc

/-- A comment begins with a slash. -/
theorem eq_blank_of_trivia {k : TokenKind} {c : Char} {body : List Char} (h : Shape k (c :: body)) (hc : isGuard c = false)
    (hk : k.isTrivia = true) : k = .blank := by
  cases k with
  | blank => rfl
  | lineComment =>
    obtain ⟨_, heq, _⟩ := h
    rw [(List.cons.inj heq).1] at hc
    exact absurd hc (by decide)
  | blockComment =>
    obtain ⟨_, heq, _⟩ := h
    rw [(List.cons.inj heq).1] at hc
    exact absurd hc (by decide)
  | _ => nomatch hk

/-- Names, numbers, blanks and operators other than slashes have no quotes and no slashes in them. -/
theorem not_isGuard_of_lexed {t : Token} (h : t.Lexed)
    (hk : t.kind = .blank ∨ t.kind = .identifier ∨ t.kind = .number ∨ t.kind = .punctuation) :
    ∀ x ∈ t.text.toList, isGuard x = false := by
  have hshape : Shape t.kind t.text.toList := h.1
  cases hw : t.text.toList with
  | nil => nofun
  | cons c body =>
    have hc : isGuard c = false := by
      rw [hw] at hshape
      rcases hk with hk | hk | hk | hk
      · rw [hk] at hshape
        exact isGuard_of_isBlankChar (hshape.2 c List.mem_cons_self)
      · rw [hk] at hshape
        obtain ⟨d, _, heq, hstart, _⟩ := hshape
        rw [(List.cons.inj heq).1]
        exact isGuard_of_isNamePart (isNamePart_of_isNameStart hstart)
      · rw [hk] at hshape
        obtain ⟨d, _, heq | heq, hd, _⟩ := hshape
        · rw [(List.cons.inj heq).1]
          exact isGuard_of_isDecimalDigit hd
        · rw [(List.cons.inj heq).1]
          decide
      · rw [hk] at hshape
        obtain ⟨d, _, heq, hbegins, _⟩ := punctuation_head hshape (hw ▸ h.no_slash)
        rw [(List.cons.inj heq).1]
        simp only [beginsMark, Bool.and_eq_true, Bool.not_eq_true'] at hbegins
        exact hbegins.1.1.1
    rw [hw] at hshape
    exact not_isGuard_of_shape hshape hc

/-- A text without quotes and slashes is read up to the first one behind it, and all its ink is found. -/
theorem Says.through {w cs : List Char} {ms : List Lexeme} (h : Says (w ++ cs) ms) (hw : ∀ c ∈ w, isGuard c = false)
    (hcs : cs.head?.all isGuard = true) : ∃ ms', Says cs ms' ∧ inkOf ms = ink w + inkOf ms' := by
  induction hlen : w.length using Nat.strongRecOn generalizing w ms with
  | _ len ih =>
  subst hlen
  cases w with
  | nil => exact ⟨ms, h, (Nat.zero_add _).symm⟩
  | cons c w =>
    obtain ⟨k, n, hread⟩ := h.read (by nofun)
    obtain ⟨hpos, hle, hshape⟩ := shape_of_lexemeLength hread
    obtain ⟨m, rfl⟩ := Nat.exists_eq_add_of_le' hpos
    have hguard : ∀ x ∈ (c :: w ++ cs).take (m + 1), isGuard x = false :=
      not_isGuard_of_shape hshape (hw c List.mem_cons_self)
    -- the token ends before the first quote or slash
    have hn : m + 1 ≤ (c :: w).length := by
      refine Nat.le_of_not_lt fun hlt => ?_
      cases cs with
      | nil =>
        rw [List.append_nil] at hle
        omega
      | cons d ds =>
        obtain ⟨j, hj⟩ := Nat.exists_eq_add_of_lt hlt
        have hmem : d ∈ (c :: w ++ d :: ds).take (m + 1) := by
          rw [List.take_append, List.mem_append]
          refine Or.inr ?_
          rw [hj, Nat.add_assoc, Nat.add_sub_cancel_left, List.take_succ_cons]
          exact List.mem_cons_self
        rw [List.head?_cons, Option.all_some] at hcs
        rw [hguard d hmem] at hcs
        nomatch hcs
    have htake : (c :: w ++ cs).take (m + 1) = (c :: w).take (m + 1) := by
      rw [List.take_append, Nat.sub_eq_zero_of_le hn, List.take_zero, List.append_nil]
    have hdrop : (c :: w ++ cs).drop (m + 1) = (c :: w).drop (m + 1) ++ cs := by
      rw [List.drop_append, Nat.sub_eq_zero_of_le hn, List.drop_zero]
    have hsum : ink (c :: w) = ink ((c :: w).take (m + 1)) + ink ((c :: w).drop (m + 1)) := by
      rw [← ink_append, List.take_append_drop]
    have hshorter : ((c :: w).drop (m + 1)).length < (c :: w).length := by
      rw [List.length_drop]
      omega
    have hrest := fun {ms'} (hmeans : Says ((c :: w ++ cs).drop (m + 1)) ms') =>
      ih _ hshorter (w := (c :: w).drop (m + 1)) (hdrop ▸ hmeans) (fun x hx => hw x (List.mem_of_mem_drop hx)) rfl
    rw [htake] at hshape
    cases hk : k.isTrivia with
    | true =>
      obtain ⟨ms', hmeans, hink⟩ := hrest ((says_iff_of_trivia hread hk).mp h)
      refine ⟨ms', hmeans, ?_⟩
      have hkind := eq_blank_of_trivia hshape (hw c List.mem_cons_self) hk
      rw [hkind] at hshape
      have hblank := ink_of_blank hshape.2
      omega
    | false =>
      obtain ⟨ms₁, rfl, hmeans₁⟩ := (says_iff_of_token hread hk).mp h
      obtain ⟨ms', hmeans, hink⟩ := hrest hmeans₁
      refine ⟨ms', hmeans, ?_⟩
      rw [inkOf, String.toList_ofList, htake]
      omega

/-! ## Tokens put together -/

theorem inkOf_lexemes_cons {t : Token} (ht : t.isTrivia = false) (ts : List Token) :
    inkOf (lexemes (t :: ts)) = ink t.text.toList + inkOf (lexemes ts) := by
  rw [lexemes_cons_of_not ht]
  rfl

/-- A token that is no trivia has ink. -/
theorem ink_pos {t : Token} (h : t.Lexed) (ht : t.isTrivia = false) : 0 < ink t.text.toList := by
  obtain ⟨c, body, heq, hblank, _⟩ := head_of_token h.1 ht h.no_slash
  rw [heq, ink, List.countP_cons_of_pos (by rw [hblank]; rfl)]
  exact Nat.succ_pos _

/-- The cases of a token: comments and texts in quotes begin with a quote or a slash, and the others have none in them. -/
theorem Token.Lexed.cases {t : Token} (h : t.Lexed) :
    (t.kind = .lineComment ∨ t.kind = .blockComment ∨ t.kind = .string ∨ t.kind = .template) ∧
        (∀ cs, (t.text.toList ++ cs).head?.all isGuard = true) ∨
      (t.kind = .blank ∨ t.kind = .identifier ∨ t.kind = .number ∨ t.kind = .punctuation) ∧
        ∀ c ∈ t.text.toList, isGuard c = false := by
  have hshape : Shape t.kind t.text.toList := h.1
  cases hk : t.kind with
  | regex =>
    rw [hk] at hshape
    exact hshape.elim
  | lineComment =>
    rw [hk] at hshape
    obtain ⟨_, heq, _⟩ := hshape
    exact Or.inl ⟨Or.inl rfl, fun cs => by rw [heq]; rfl⟩
  | blockComment =>
    rw [hk] at hshape
    obtain ⟨_, heq, _⟩ := hshape
    exact Or.inl ⟨Or.inr (Or.inl rfl), fun cs => by rw [heq]; rfl⟩
  | string =>
    rw [hk] at hshape
    obtain ⟨q, _, heq, rfl | rfl, _⟩ := hshape
    · exact Or.inl ⟨Or.inr (Or.inr (Or.inl rfl)), fun cs => by rw [heq]; rfl⟩
    · exact Or.inl ⟨Or.inr (Or.inr (Or.inl rfl)), fun cs => by rw [heq]; rfl⟩
  | template =>
    rw [hk] at hshape
    obtain ⟨_, heq, _⟩ := hshape
    exact Or.inl ⟨Or.inr (Or.inr (Or.inr rfl)), fun cs => by rw [heq]; rfl⟩
  | blank => exact Or.inr ⟨Or.inl rfl, not_isGuard_of_lexed h (Or.inl hk)⟩
  | identifier => exact Or.inr ⟨Or.inr (Or.inl rfl), not_isGuard_of_lexed h (Or.inr (Or.inl hk))⟩
  | number => exact Or.inr ⟨Or.inr (Or.inr (Or.inl rfl)), not_isGuard_of_lexed h (Or.inr (Or.inr (Or.inl hk)))⟩
  | punctuation => exact Or.inr ⟨Or.inr (Or.inr (Or.inr rfl)), not_isGuard_of_lexed h (Or.inr (Or.inr (Or.inr hk)))⟩

/-- A text in quotes is read as it is, whatever is behind it. -/
theorem Token.Lexed.says_quoted {t : Token} (h : t.Lexed) (hk : t.kind = .string ∨ t.kind = .template) {cs : List Char}
    {ms : List Lexeme} : Says (t.text.toList ++ cs) ms ↔ ∃ ms', ms = t.lexeme :: ms' ∧ Says cs ms' := by
  have hkind : t.kind.isTrivia = false := by rcases hk with hk | hk <;> rw [hk] <;> rfl
  have hruns : runsInto t.kind t.text.toList cs = false := by rcases hk with hk | hk <;> rw [hk] <;> rfl
  have hread := (lexemeLength_append_iff h.1 (not_trivia_iff.mp hkind) h.no_slash cs).mpr hruns
  rw [says_iff_of_token hread hkind, List.take_left, List.drop_left, String.ofList_toList]
  rfl

/-- What is found behind `w` has at most the ink of `w` and of the tokens, and all of it only if the comments are ended. -/
def Bounded (w : List Char) (ts : List Token) (ms : List Lexeme) : Prop :=
  inkOf ms ≤ ink w + inkOf (lexemes ts) ∧ (ink w + inkOf (lexemes ts) ≤ inkOf ms → EndsComments ts)

/-- A reading of tokens put together never finds more than the tokens, and finds less where a line comment takes up a token. The
reading may be out of step with the tokens at the front, behind `w`, but not behind a quote or a slash. -/
theorem bounded_ink {ts : List Token} (hlexed : ∀ t ∈ ts, t.Lexed) (hcuts : CutsNothing ts) :
    (∀ w ms, (∀ c ∈ w, isGuard c = false) → Says (w ++ sourceText ts) ms → Bounded w ts ms) ∧
      (BreaksInBlank ts → ∀ ms, Says ((sourceText ts).dropWhile (· != '\n')) ms →
        Bounded [] ts ms ∧ (inkOf (lexemes ts) ≤ inkOf ms → Resumes ts)) := by
  induction ts with
  | nil =>
    constructor
    · intro w ms hw hmeans
      obtain ⟨ms', hnil, hink⟩ := hmeans.through hw rfl
      rw [says_nil_iff.mp hnil] at hink
      exact ⟨Nat.le_of_eq hink, fun _ => trivial⟩
    · intro _ ms hmeans
      rw [says_nil_iff.mp hmeans]
      exact ⟨⟨Nat.le_refl _, fun _ => trivial⟩, fun _ => trivial⟩
  | cons t ts ih =>
    have ht := hlexed t List.mem_cons_self
    obtain ⟨ih, ihline⟩ := ih (fun u hu => hlexed u (List.mem_cons_of_mem _ hu)) hcuts.2
    rw [sourceText_cons]
    constructor
    · intro w ms hw hmeans
      rcases ht.cases with ⟨hk, hhead⟩ | ⟨hk, hsoft⟩
      · -- the reading is in step again at the quote or the slash
        obtain ⟨ms', hmeans', hink⟩ := hmeans.through hw (hhead _)
        rcases hk with hk | hk | hk
        · have htrivia : t.isTrivia = true := by rw [Token.isTrivia, hk]; rfl
          obtain ⟨⟨hle, hends⟩, hresumes⟩ := ihline (hcuts.1 hk) ms' ((ht.says_line hk).mp hmeans')
          rw [Bounded, lexemes_cons_of_trivia htrivia, hink]
          rw [ink_nil, Nat.zero_add] at hle hends
          exact ⟨Nat.add_le_add_left hle _, fun hge =>
            ⟨fun _ => hresumes (Nat.le_of_add_le_add_left hge), hends (Nat.le_of_add_le_add_left hge)⟩⟩
        · have htrivia : t.isTrivia = true := by rw [Token.isTrivia, hk]; rfl
          have hline : t.kind ≠ .lineComment := by rw [hk]; decide
          obtain ⟨hle, hends⟩ := ih [] ms' (List.forall_mem_nil _) ((ht.says_trivia htrivia hline).mp hmeans')
          rw [Bounded, lexemes_cons_of_trivia htrivia, hink]
          rw [ink_nil, Nat.zero_add] at hle hends
          exact ⟨Nat.add_le_add_left hle _, fun hge =>
            ⟨fun h => absurd h hline, hends (Nat.le_of_add_le_add_left hge)⟩⟩
        · have htrivia : t.isTrivia = false := by rw [Token.isTrivia]; rcases hk with hk | hk <;> rw [hk] <;> rfl
          have hline : t.kind ≠ .lineComment := by rcases hk with hk | hk <;> rw [hk] <;> decide
          obtain ⟨ms'', rfl, hmeans''⟩ := (ht.says_quoted hk).mp hmeans'
          obtain ⟨hle, hends⟩ := ih [] ms'' (List.forall_mem_nil _) hmeans''
          rw [Bounded, inkOf_lexemes_cons htrivia, hink, inkOf]
          rw [ink_nil, Nat.zero_add] at hle hends
          refine ⟨Nat.add_le_add_left (Nat.add_le_add_left hle _) _, fun hge => ⟨fun h => absurd h hline, hends ?_⟩⟩
          exact Nat.le_of_add_le_add_left (Nat.le_of_add_le_add_left hge)
      · -- the token may be read as a part of a longer one
        have hline : t.kind ≠ .lineComment := by rcases hk with hk | hk | hk | hk <;> rw [hk] <;> decide
        rw [← List.append_assoc] at hmeans
        obtain ⟨hle, hends⟩ := ih (w ++ t.text.toList) ms (fun c hc => (List.mem_append.mp hc).elim (hw c) (hsoft c)) hmeans
        have hink : ink t.text.toList + inkOf (lexemes ts) = inkOf (lexemes (t :: ts)) := by
          cases htrivia : t.isTrivia with
          | false => exact (inkOf_lexemes_cons htrivia ts).symm
          | true =>
            have hblank : t.kind = .blank := by
              rw [Token.isTrivia] at htrivia
              rcases hk with hk | hk | hk | hk
              · exact hk
              all_goals rw [hk] at htrivia; cases htrivia
            have hshape : Shape t.kind t.text.toList := ht.1
            rw [hblank] at hshape
            rw [lexemes_cons_of_trivia htrivia, ink_of_blank hshape.2, Nat.zero_add]
        rw [ink_append, Nat.add_assoc, hink] at hle hends
        exact ⟨hle, fun hge => ⟨fun h => absurd h hline, hends hge⟩⟩
    · rintro (hbreak | ⟨hnone, hbreaks⟩) ms hmeans
      · have hblank : t.kind = .blank := by
          rw [Token.breaksLine, Bool.and_eq_true, beq_iff_eq] at hbreak
          exact hbreak.1
        have htrivia : t.isTrivia = true := by rw [Token.isTrivia, hblank]; rfl
        obtain ⟨w, hw, heq⟩ := ht.dropWhile_break hbreak (sourceText ts)
        rw [heq] at hmeans
        obtain ⟨hle, hends⟩ := ih w ms (fun c hc => isGuard_of_isBlankChar (hw.2 c hc)) hmeans
        rw [ink_of_blank hw.2] at hle hends
        rw [Bounded, lexemes_cons_of_trivia htrivia, ink_nil]
        exact ⟨⟨hle, fun hge => ⟨fun h => (by rw [hblank] at h; cases h), hends hge⟩⟩, fun _ => ⟨htrivia, Or.inl hbreak⟩⟩
      · rw [Token.Lexed.dropWhile_no_break hnone] at hmeans
        obtain ⟨⟨hle, hends⟩, hresumes⟩ := ihline hbreaks ms hmeans
        rw [ink_nil, Nat.zero_add] at hle hends
        rw [Bounded, ink_nil, Nat.zero_add]
        cases htrivia : t.isTrivia with
        | true =>
          rw [lexemes_cons_of_trivia htrivia]
          exact ⟨⟨hle, fun hge => ⟨fun _ => hresumes hge, hends hge⟩⟩, fun hge => ⟨htrivia, Or.inr ⟨hnone, hresumes hge⟩⟩⟩
        | false =>
          -- a token that the line comment takes up is not found
          have hpos := ink_pos ht htrivia
          rw [inkOf_lexemes_cons htrivia]
          exact ⟨⟨by omega, fun hge => by omega⟩, fun hge => by omega⟩

/-- Tokens put together are read back as these tokens exactly if no line comment takes up what is behind it and no token runs into
what is behind it. -/
theorem says_lexemes_iff {ts : List Token} (hlexed : ∀ t ∈ ts, t.Lexed) (hcuts : CutsNothing ts) :
    Says (sourceText ts) (lexemes ts) ↔ EndsComments ts ∧ Separate ts := by
  constructor
  · intro hmeans
    have hends := ((bounded_ink hlexed hcuts).1 [] _ nofun hmeans).2 (Nat.le_of_eq (Nat.zero_add _))
    exact ⟨hends, (says_iff_separate hlexed hends).1.mp hmeans⟩
  · rintro ⟨hends, hseparate⟩
    exact (says_iff_separate hlexed hends).1.mpr hseparate

end ScriptLoader.Syntax
