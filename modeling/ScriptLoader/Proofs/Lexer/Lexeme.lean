import ScriptLoader.Syntax.Lexer

/-!
# Lexemes

What the text of a token of each class looks like (`Shape`), and what the lexer reads where such a text stands in front of another
text. A name, a number and an operator may run into what follows (`runsInto`); a line comment and blanks take more of it; strings,
templates and block comments end by themselves.
-/

namespace ScriptLoader.Syntax

open ScriptLoader.Text

/-! ## Runs of characters -/

theorem run_append_of_all {p : Char → Bool} {w : List Char} (h : ∀ c ∈ w, p c = true) (cs : List Char) :
    run p (w ++ cs) = w.length + run p cs := by
  unfold run
  rw [List.takeWhile_append_of_pos h, List.length_append]

theorem run_le (p : Char → Bool) (cs : List Char) : run p cs ≤ cs.length := (List.takeWhile_sublist p).length_le

theorem all_take_run (p : Char → Bool) (cs : List Char) : ∀ c ∈ cs.take (run p cs), p c = true := by
  have h : cs.take (run p cs) = cs.takeWhile p := (List.prefix_iff_eq_take.mp (List.takeWhile_prefix p)).symm
  rw [h]
  exact List.all_eq_true.mp List.all_takeWhile

theorem run_eq_zero_iff {p : Char → Bool} {cs : List Char} : run p cs = 0 ↔ cs.head?.any p = false := by
  cases cs with
  | nil => simp [run]
  | cons c cs => cases h : p c <;> simp [run, h]

/-! ## What ends by itself -/

theorem two_le_commentEnd {cs : List Char} {n : Nat} (h : commentEnd cs = some n) : 2 ≤ n := by
  fun_induction commentEnd cs generalizing n with
  | case1 => exact Nat.le_of_eq (Option.some.inj h)
  | case2 c cs hne ih =>
    obtain ⟨m, hm, rfl⟩ := Option.map_eq_some_iff.mp h
    exact Nat.le_succ_of_le (ih hm)
  | case3 => nomatch h

/-- A block comment is read up to its end, whatever follows. -/
theorem commentEnd_take {cs : List Char} {n : Nat} (h : commentEnd cs = some n) (after : List Char) :
    n ≤ cs.length ∧ commentEnd (cs.take n ++ after) = some n := by
  fun_induction commentEnd cs generalizing n with
  | case1 cs =>
    injection h with h
    subst h
    exact ⟨by simp, rfl⟩
  | case2 c cs hne ih =>
    obtain ⟨m, hm, rfl⟩ := Option.map_eq_some_iff.mp h
    obtain ⟨hle, hend⟩ := ih hm
    refine ⟨Nat.succ_le_succ hle, ?_⟩
    rw [List.take_succ_cons, List.cons_append, commentEnd, hend]
    · rfl
    · -- the text goes on with the character it went on with before, so the comment does not end earlier
      intro rest hc hr
      obtain ⟨k, rfl⟩ := Nat.exists_eq_add_of_le' (two_le_commentEnd hm)
      cases cs with
      | nil => nomatch hm
      | cons d ds =>
        rw [List.take_succ_cons, List.cons_append] at hr
        injection hr with hd _
        exact hne ds hc (by rw [hd])
  | case3 => nomatch h

theorem quoteEnd_cons {q c : Char} (hc : c ≠ '\\') (m : Bool) (cs : List Char) :
    quoteEnd q m (c :: cs) =
      if c = q then some 1 else if c = '\n' && !m then none else (quoteEnd q m cs).map (· + 1) := by
  rw [quoteEnd]
  · rw [if_neg hc]
  · intro d ds hd _
    exact hc hd

/-- A string or a template is read up to its closing quote, whatever follows. -/
theorem quoteEnd_take {q : Char} {m : Bool} {cs : List Char} {n : Nat} (h : quoteEnd q m cs = some n) (after : List Char) :
    n ≤ cs.length ∧ quoteEnd q m (cs.take n ++ after) = some n := by
  fun_induction quoteEnd q m cs generalizing n with
  | case1 c cs ih =>
    obtain ⟨k, hk, rfl⟩ := Option.map_eq_some_iff.mp h
    obtain ⟨hle, hend⟩ := ih hk
    refine ⟨Nat.succ_le_succ (Nat.succ_le_succ hle), ?_⟩
    simp only [List.take_succ_cons, List.cons_append, quoteEnd, hend, Option.map_some]
  | case2 => nomatch h
  | case3 cs _ hc =>
    injection h with h
    subst h
    refine ⟨by simp, ?_⟩
    rw [List.take_succ_cons, List.cons_append, quoteEnd_cons hc, if_pos rfl]
  | case4 => nomatch h
  | case5 c cs _ hc hq hn ih =>
    obtain ⟨k, hk, rfl⟩ := Option.map_eq_some_iff.mp h
    obtain ⟨hle, hend⟩ := ih hk
    refine ⟨Nat.succ_le_succ hle, ?_⟩
    rw [List.take_succ_cons, List.cons_append, quoteEnd_cons hc, if_neg hq, if_neg hn, hend]
    rfl
  | case6 => nomatch h

/-! ## Numbers -/

/-- What may stand behind the first digit of a number: word characters, perhaps with one point among them. -/
def NumberTail (body : List Char) : Prop :=
  (∀ c ∈ body, isNumberPart c = true) ∨
    ∃ a b, body = a ++ '.' :: b ∧ (∀ c ∈ a, isNumberPart c = true) ∧ ∀ c ∈ b, isNumberPart c = true

theorem numberRest_take {cs : List Char} : numberRest cs ≤ cs.length ∧ NumberTail (cs.take (numberRest cs)) := by
  have hall := all_take_run isNumberPart cs
  have hle := run_le isNumberPart cs
  unfold numberRest
  simp only
  split
  · rename_i more hmore
    have hlen : (cs.drop (run isNumberPart cs)).length = cs.length - run isNumberPart cs := List.length_drop
    rw [hmore, List.length_cons] at hlen
    have hm := run_le isNumberPart more
    refine ⟨by omega, Or.inr ⟨_, _, ?_, hall, all_take_run isNumberPart more⟩⟩
    rw [Nat.add_assoc, List.take_add, hmore, Nat.add_comm 1, List.take_succ_cons]
  · exact ⟨hle, Or.inl hall⟩

/-- A number without a point goes on with word characters and with a point. -/
theorem numberRest_append_of_all {body : List Char} (h : ∀ c ∈ body, isNumberPart c = true) (cs : List Char) :
    numberRest (body ++ cs) = body.length + numberRest cs := by
  unfold numberRest
  simp only [run_append_of_all h, List.drop_length_add_append]
  split <;> omega

/-- A number with a point goes on with word characters only. -/
theorem numberRest_append_of_point {a b : List Char} (ha : ∀ c ∈ a, isNumberPart c = true)
    (hb : ∀ c ∈ b, isNumberPart c = true) (cs : List Char) :
    numberRest (a ++ '.' :: b ++ cs) = (a ++ '.' :: b).length + run isNumberPart cs := by
  have hrun : run isNumberPart ('.' :: b ++ cs) = 0 := run_eq_zero_iff.mpr rfl
  rw [List.append_assoc, numberRest_append_of_all ha, numberRest, hrun]
  simp only [List.drop_zero, List.cons_append, run_append_of_all hb, List.length_append, List.length_cons]
  omega

theorem numberRest_eq_zero_iff {cs : List Char} :
    numberRest cs = 0 ↔ cs.head?.any (fun c => isNumberPart c || c == '.') = false := by
  cases cs with
  | nil => simp [numberRest, run]
  | cons c cs =>
    by_cases hc : isNumberPart c = true
    · have hrun : run isNumberPart (c :: cs) ≠ 0 := fun h0 => by simp [run_eq_zero_iff, hc] at h0
      have hrest : run isNumberPart (c :: cs) ≤ numberRest (c :: cs) := by
        unfold numberRest
        simp only
        split <;> omega
      simp only [List.head?_cons, Option.any_some, hc, Bool.true_or, Bool.true_eq_false, iff_false]
      omega
    · have hrun : run isNumberPart (c :: cs) = 0 := run_eq_zero_iff.mpr (by simpa using hc)
      rw [numberRest, hrun]
      by_cases hp : c = '.'
      · subst hp
        simp
      · simp [hc, hp]

/-! ## The text of a token -/

/-- What the text of a token of each class looks like. The lexer makes no regular expressions. -/
def Shape : TokenKind → List Char → Prop
  | .lineComment, w => ∃ body, w = '/' :: '/' :: body ∧ ∀ c ∈ body, (c != '\n') = true
  | .blockComment, w => ∃ body, w = '/' :: '*' :: body ∧ commentEnd body = some body.length
  | .string, w => ∃ q body, w = q :: body ∧ (q = '\x22' ∨ q = '\x27') ∧ quoteEnd q false body = some body.length
  | .template, w => ∃ body, w = '\x60' :: body ∧ quoteEnd '\x60' true body = some body.length
  | .blank, w => w ≠ [] ∧ ∀ c ∈ w, isBlankChar c = true
  | .number, w => ∃ d body, (w = d :: body ∨ w = '.' :: d :: body) ∧ isDecimalDigit d = true ∧ NumberTail body
  | .identifier, w => ∃ c body, w = c :: body ∧ isNameStart c = true ∧ isDecimalDigit c = false ∧ isBlankChar c = false ∧
      ∀ x ∈ body, isNamePart x = true
  | .punctuation, w => w ∈ operators ∨ ∃ c ∈ marks, w = [c]
  | .regex, _ => False

/-- The length of a token of the class at the start of a text. -/
def classLength : TokenKind → List Char → Option Nat
  | .lineComment => lineCommentLength
  | .blockComment => blockCommentLength
  | .string => stringLength
  | .template => templateLength
  | .blank => blankLength
  | .number => numberLength
  | .identifier => nameLength
  | .punctuation => punctuationLength
  | .regex => fun _ => none

/-- The first class that matches is the first of the list, or one of the others where the first does not match. -/
theorem lexeme_or {k : TokenKind} {length : Option Nat} {others : Option (TokenKind × Nat)} {x : TokenKind × Nat}
    (h : (length.map (k, ·) <|> others) = some x) : (length = some x.2 ∧ x.1 = k) ∨ (length = none ∧ others = some x) := by
  cases length with
  | none => exact Or.inr ⟨rfl, h⟩
  | some n =>
    injection h with h
    subst h
    exact Or.inl ⟨rfl, rfl⟩

/-- The lexer's choice: the class matches, and a name begins neither with a digit nor with a blank. -/
theorem classLength_of_lexemeLength {cs : List Char} {k : TokenKind} {n : Nat} (h : lexemeLength cs = some (k, n)) :
    classLength k cs = some n ∧ (k = .identifier → blankLength cs = none ∧ numberLength cs = none) := by
  unfold lexemeLength at h
  rcases lexeme_or h with ⟨hn, rfl⟩ | ⟨_, h⟩
  · exact ⟨hn, nofun⟩
  rcases lexeme_or h with ⟨hn, rfl⟩ | ⟨_, h⟩
  · exact ⟨hn, nofun⟩
  rcases lexeme_or h with ⟨hn, rfl⟩ | ⟨_, h⟩
  · exact ⟨hn, nofun⟩
  rcases lexeme_or h with ⟨hn, rfl⟩ | ⟨_, h⟩
  · exact ⟨hn, nofun⟩
  rcases lexeme_or h with ⟨hn, rfl⟩ | ⟨hblank, h⟩
  · exact ⟨hn, nofun⟩
  rcases lexeme_or h with ⟨hn, rfl⟩ | ⟨hnumber, h⟩
  · exact ⟨hn, nofun⟩
  rcases lexeme_or h with ⟨hn, rfl⟩ | ⟨_, h⟩
  · exact ⟨hn, fun _ => ⟨hblank, hnumber⟩⟩
  obtain ⟨m, hm, hx⟩ := Option.map_eq_some_iff.mp h
  obtain ⟨rfl, rfl⟩ := Prod.mk.inj hx
  exact ⟨hm, nofun⟩

theorem operators_pos {op : List Char} (h : op ∈ operators) : 0 < op.length := by
  have hall : ∀ op ∈ operators, 0 < op.length := by decide
  exact hall op h

/-! ### Where a class begins -/

theorem blankLength_cons {c : Char} (cs : List Char) : blankLength (c :: cs) = none ↔ isBlankChar c = false := by
  have h := @run_eq_zero_iff isBlankChar (c :: cs)
  simp only [List.head?_cons, Option.any_some] at h
  unfold blankLength
  split
  · exact ⟨fun _ => h.mp (by assumption), fun _ => rfl⟩
  · rename_i n hn
    exact ⟨nofun, fun hc => absurd (h.mpr hc) hn⟩

theorem numberLength_cons {c : Char} (hc : c ≠ '.') (cs : List Char) :
    numberLength (c :: cs) = if isDecimalDigit c then some (1 + numberRest cs) else none := by
  rw [numberLength]
  intro d ds hpoint _
  exact hc hpoint

/-- Characters that begin a comment, a string or a template, if the text goes on as one. -/
def isGuard (c : Char) : Bool := c == '/' || c == '\x22' || c == '\x27' || c == '\x60'

/-- A text that begins with another character is blank, a number, a name or punctuation. -/
theorem lexemeLength_cons {c : Char} (hc : isGuard c = false) (cs : List Char) :
    lexemeLength (c :: cs) =
      ((blankLength (c :: cs)).map (.blank, ·) <|> (numberLength (c :: cs)).map (.number, ·) <|>
        (nameLength (c :: cs)).map (.identifier, ·) <|> (punctuationLength (c :: cs)).map (.punctuation, ·)) := by
  simp only [isGuard, Bool.or_eq_false_iff, beq_eq_false_iff_ne] at hc
  obtain ⟨⟨⟨hslash, hdouble⟩, hsingle⟩, hback⟩ := hc
  have h₁ : lineCommentLength (c :: cs) = none := by
    rw [lineCommentLength]
    intro _ h
    injection h with h _
    exact hslash h
  have h₂ : blockCommentLength (c :: cs) = none := by
    rw [blockCommentLength]
    intro _ h
    injection h with h _
    exact hslash h
  have h₃ : stringLength (c :: cs) = none := by
    rw [stringLength, if_neg]
    rw [Bool.or_eq_true, decide_eq_true_eq, decide_eq_true_eq, not_or]
    exact ⟨hdouble, hsingle⟩
  have h₄ : templateLength (c :: cs) = none := if_neg hback
  rw [lexemeLength, h₁, h₂, h₃, h₄]
  rfl

/-! ### Shapes of what the lexer reads -/

/-- What the lexer takes from a text is not empty, is there, and has the shape of its class. -/
theorem shape_of_lexemeLength {cs : List Char} {k : TokenKind} {n : Nat} (h : lexemeLength cs = some (k, n)) :
    0 < n ∧ n ≤ cs.length ∧ Shape k (cs.take n) := by
  obtain ⟨hn, hname⟩ := classLength_of_lexemeLength h
  cases k with
  | lineComment =>
    simp only [classLength] at hn
    unfold lineCommentLength at hn
    split at hn
    · rename_i body
      injection hn with hn
      subst hn
      have hle := run_le (· != '\n') body
      refine ⟨by omega, by simp only [List.length_cons]; omega, body.take (run (· != '\n') body), ?_, all_take_run _ _⟩
      rw [Nat.add_comm]
      rfl
    · cases hn
  | blockComment =>
    simp only [classLength] at hn
    unfold blockCommentLength at hn
    split at hn
    · rename_i body
      obtain ⟨m, hm, rfl⟩ := Option.map_eq_some_iff.mp hn
      obtain ⟨hle, hend⟩ := commentEnd_take hm []
      refine ⟨by omega, by simp only [List.length_cons]; omega, body.take m, rfl, ?_⟩
      rw [List.append_nil] at hend
      rw [hend, List.length_take, Nat.min_eq_left hle]
    · cases hn
  | string =>
    simp only [classLength] at hn
    cases cs with
    | nil => cases hn
    | cons q body =>
      simp only [stringLength] at hn
      split at hn
      · rename_i hq
        rw [Bool.or_eq_true, decide_eq_true_eq, decide_eq_true_eq] at hq
        obtain ⟨m, hm, rfl⟩ := Option.map_eq_some_iff.mp hn
        obtain ⟨hle, hend⟩ := quoteEnd_take hm []
        refine ⟨by omega, Nat.succ_le_succ hle, q, body.take m, rfl, hq, ?_⟩
        rw [List.append_nil] at hend
        rw [hend, List.length_take, Nat.min_eq_left hle]
      · cases hn
  | template =>
    simp only [classLength] at hn
    cases cs with
    | nil => cases hn
    | cons q body =>
      simp only [templateLength] at hn
      split at hn
      · rename_i hq
        subst hq
        obtain ⟨m, hm, rfl⟩ := Option.map_eq_some_iff.mp hn
        obtain ⟨hle, hend⟩ := quoteEnd_take hm []
        refine ⟨by omega, Nat.succ_le_succ hle, body.take m, rfl, ?_⟩
        rw [List.append_nil] at hend
        rw [hend, List.length_take, Nat.min_eq_left hle]
      · cases hn
  | blank =>
    simp only [classLength] at hn
    unfold blankLength at hn
    split at hn
    · cases hn
    · rename_i m hm
      injection hn with hn
      subst hn
      have hle := run_le isBlankChar cs
      refine ⟨Nat.pos_of_ne_zero hm, hle, ?_, all_take_run _ _⟩
      intro hnil
      have hlen := congrArg List.length hnil
      rw [List.length_take, Nat.min_eq_left hle] at hlen
      exact hm hlen
  | number =>
    simp only [classLength] at hn
    unfold numberLength at hn
    split at hn
    · rename_i d body
      split at hn
      · rename_i hd
        injection hn with hn
        subst hn
        obtain ⟨hle, htail⟩ := @numberRest_take body
        refine ⟨by omega, by simp only [List.length_cons]; omega, d, body.take (numberRest body), Or.inr ?_, hd, htail⟩
        rw [Nat.add_comm]
        rfl
      · cases hn
    · rename_i d body _
      split at hn
      · rename_i hd
        injection hn with hn
        subst hn
        obtain ⟨hle, htail⟩ := @numberRest_take body
        refine ⟨by omega, by simp only [List.length_cons]; omega, d, body.take (numberRest body), Or.inl ?_, hd, htail⟩
        rw [Nat.add_comm]
        rfl
      · cases hn
    · cases hn
  | identifier =>
    obtain ⟨hblank, hnumber⟩ := hname rfl
    simp only [classLength] at hn
    cases cs with
    | nil => cases hn
    | cons c body =>
      simp only [nameLength] at hn
      split at hn
      · rename_i hc
        injection hn with hn
        subst hn
        have hle := run_le isNamePart body
        have hpoint : c ≠ '.' := by
          rintro rfl
          cases hc
        have hdigit : isDecimalDigit c = false := by
          rw [numberLength_cons hpoint] at hnumber
          split at hnumber
          · cases hnumber
          · exact Bool.eq_false_iff.mpr (by assumption)
        refine ⟨by omega, by simp only [List.length_cons]; omega, c, body.take (run isNamePart body), ?_, hc, hdigit,
          (blankLength_cons body).mp hblank, all_take_run _ _⟩
        rw [Nat.add_comm]
        rfl
      · cases hn
  | punctuation =>
    simp only [classLength] at hn
    unfold punctuationLength at hn
    split at hn
    · rename_i op hop
      injection hn with hn
      subst hn
      have hmem := List.mem_of_find?_eq_some hop
      have hat := List.find?_some hop
      rw [operatorAt, Bool.and_eq_true] at hat
      have hprefix := List.isPrefixOf_iff_prefix.mp hat.1
      refine ⟨operators_pos hmem, hprefix.length_le, Or.inl ?_⟩
      rw [← List.prefix_iff_eq_take.mp hprefix]
      exact hmem
    · split at hn
      · rename_i c body _
        split at hn
        · rename_i hc
          injection hn with hn
          subst hn
          exact ⟨Nat.one_pos, Nat.succ_le_succ (Nat.zero_le _), Or.inr ⟨c, List.contains_iff_mem.mp hc, rfl⟩⟩
        · cases hn
      · cases hn
  | regex => cases hn

/-- The text of a token of the lexer has the shape of its class. -/
def Token.Shaped (t : Token) : Prop := Shape t.kind t.text.toList

/-- Every token of the lexer has the shape of its class. -/
theorem shaped_of_lexFrom {p : Position} {start : Nat} {cs : List Char} {ts : List Token} (h : lexFrom p start cs = .ok ts) :
    ∀ t ∈ ts, t.Shaped := by
  fun_induction lexFrom p start cs generalizing ts with
  | case1 =>
    injection h with h
    subst h
    exact List.forall_mem_nil _
  | case2 => cases h
  | case3 => cases h
  | case4 p start c rest kind n hlen lexeme us =>
    rename_i hus ih
    injection h with h
    subst h
    intro t ht
    rcases List.mem_cons.mp ht with rfl | ht
    · obtain ⟨hpos, _, hshape⟩ := shape_of_lexemeLength hlen
      rw [Token.Shaped, String.toList_ofList]
      simp only [lexeme, Nat.max_eq_right hpos]
      exact hshape
    · exact ih hus t ht

/-- At the start of a text, the lexer reads all of it. -/
theorem tokenize_first (content : List Char) : tokenize content 0 .first = lexFrom .first 0 content := by
  rw [tokenize, List.drop_zero]
  cases lexFrom .first 0 content <;> rfl

/-- A whole source is lexed from its first position. -/
theorem lexFrom_of_tokenize {cs : List Char} {ts : List Token} (h : tokenize cs 0 .first = .ok ts) :
    lexFrom .first 0 cs = .ok ts := (tokenize_first cs).symm.trans h

/-! ### Texts that only punctuation has -/

/-- The text begins as a token of another class may begin. -/
def beginsOther : List Char → Bool
  | [] => true
  | [c] => c == '\x22' || c == '\x27' || c == '\x60' || isBlankChar c || isDecimalDigit c || isNameStart c
  | c :: d :: _ => c == '\x22' || c == '\x27' || c == '\x60' || isBlankChar c || isDecimalDigit c || isNameStart c ||
      (c == '/' && (d == '/' || d == '*')) || (c == '.' && isDecimalDigit d)

/-- A token of another class than punctuation begins as one. -/
theorem beginsOther_of_shape {k : TokenKind} {w : List Char} (h : Shape k w) (hk : k ≠ .punctuation) : beginsOther w = true := by
  cases k with
  | lineComment =>
    obtain ⟨body, rfl, _⟩ := h
    rfl
  | blockComment =>
    obtain ⟨body, rfl, _⟩ := h
    rfl
  | string =>
    obtain ⟨q, body, rfl, rfl | rfl, _⟩ := h <;> cases body <;> rfl
  | template =>
    obtain ⟨body, rfl, _⟩ := h
    cases body <;> rfl
  | blank =>
    obtain ⟨hne, hall⟩ := h
    rcases w with _ | ⟨c, _ | ⟨d, w⟩⟩
    · rfl
    · simp only [beginsOther, hall c (by simp), Bool.or_true, Bool.true_or]
    · simp only [beginsOther, hall c (by simp), Bool.or_true, Bool.true_or]
  | number =>
    obtain ⟨d, body, rfl | rfl, hd, _⟩ := h
    · cases body <;> simp only [beginsOther, hd, Bool.or_true, Bool.true_or]
    · simp only [beginsOther, hd, Bool.or_true, beq_self_eq_true, Bool.and_true]
  | identifier =>
    obtain ⟨c, body, rfl, hc, _⟩ := h
    cases body <;> simp only [beginsOther, hc, Bool.or_true, Bool.true_or]
  | punctuation => exact absurd rfl hk
  | regex => exact h.elim

/-- What is written like an operator or a mark is punctuation. -/
theorem Token.Shaped.kind_eq_punctuation {t : Token} (h : t.Shaped) (ht : beginsOther t.text.toList = false) :
    t.kind = .punctuation := by
  by_cases hk : t.kind = .punctuation
  · exact hk
  · rw [beginsOther_of_shape h hk] at ht
    nomatch ht

/-- Trivia are not written like operators. -/
theorem Token.Shaped.beginsOther_of_trivia {t : Token} (h : t.Shaped) (ht : t.isTrivia = true) :
    beginsOther t.text.toList = true := by
  refine beginsOther_of_shape h fun hk => ?_
  rw [Token.isTrivia, hk] at ht
  nomatch ht

theorem ne_of_beginsOther {s m : String} (hs : beginsOther s.toList = true) (hm : beginsOther m.toList = false) : s ≠ m := by
  rintro rfl
  rw [hs] at hm
  nomatch hm

end ScriptLoader.Syntax
