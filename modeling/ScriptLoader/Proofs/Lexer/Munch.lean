import ScriptLoader.Proofs.Lexer.Lexeme

/-!
# What the lexer reads where a token stands

The text of a token in front of another text (`lexemeLength_append_iff`). Strings, templates and comments in brackets end by
themselves; a name, a number or an operator is read again exactly if it does not run into the text behind it (`runsInto`); blanks
and line comments take more of it.
-/

namespace ScriptLoader.Syntax

open ScriptLoader.Text

/-! ## Characters that begin a class -/

theorem eq_of_isGuard {c : Char} (h : isGuard c = true) : c = '/' ∨ c = '\x22' ∨ c = '\x27' ∨ c = '\x60' := by
  simp only [isGuard, Bool.or_eq_true, beq_iff_eq, or_assoc] at h
  exact h

/-- A class of characters with none of the four has no character that begins a comment, a string or a template. -/
theorem not_isGuard_of {p : Char → Bool} (hp : [p '/', p '\x22', p '\x27', p '\x60'] = [false, false, false, false]) {c : Char}
    (h : p c = true) : isGuard c = false := by
  rw [Bool.eq_false_iff]
  intro hc
  simp only [List.cons.injEq, and_true] at hp
  obtain ⟨h₁, h₂, h₃, h₄⟩ := hp
  rcases eq_of_isGuard hc with rfl | rfl | rfl | rfl <;> simp_all

theorem isGuard_of_isBlankChar {c : Char} (h : isBlankChar c = true) : isGuard c = false := not_isGuard_of (by decide) h

theorem isGuard_of_isDecimalDigit {c : Char} (h : isDecimalDigit c = true) : isGuard c = false := not_isGuard_of (by decide) h

theorem isGuard_of_isNumberPart {c : Char} (h : isNumberPart c = true) : isGuard c = false := not_isGuard_of (by decide) h

theorem isGuard_of_isNamePart {c : Char} (h : isNamePart c = true) : isGuard c = false := not_isGuard_of (by decide) h

theorem isNamePart_of_isNameStart {c : Char} (h : isNameStart c = true) : isNamePart c = true := by
  rw [isNamePart, h, Bool.true_or]

theorem isBlankChar_of_isDecimalDigit {c : Char} (h : isDecimalDigit c = true) : isBlankChar c = false := by
  rw [Bool.eq_false_iff]
  intro hc
  simp only [isBlankChar, Bool.or_eq_true, beq_iff_eq] at hc
  rcases hc with ((((((rfl | rfl) | rfl) | rfl) | rfl) | rfl) | rfl) | rfl <;> revert h <;> decide

/-! ## Each class in front of another text -/

theorem lexemeLength_lineComment {w : List Char} (h : Shape .lineComment w) (cs : List Char) :
    lexemeLength (w ++ cs) = some (.lineComment, w.length + run (· != '\n') cs) := by
  obtain ⟨body, rfl, hall⟩ := h
  have hlen : lineCommentLength ('/' :: '/' :: body ++ cs) = some (2 + run (· != '\n') (body ++ cs)) := rfl
  rw [lexemeLength, hlen, run_append_of_all hall, List.length_cons, List.length_cons, ← Nat.add_assoc, Nat.add_comm 2]
  rfl

theorem lexemeLength_blockComment {w : List Char} (h : Shape .blockComment w) (cs : List Char) :
    lexemeLength (w ++ cs) = some (.blockComment, w.length) := by
  obtain ⟨body, rfl, hend⟩ := h
  have hbody := (commentEnd_take hend cs).2
  rw [List.take_length] at hbody
  have hline : lineCommentLength ('/' :: '*' :: body ++ cs) = none := rfl
  have hlen : blockCommentLength ('/' :: '*' :: body ++ cs) = (commentEnd (body ++ cs)).map (· + 2) := rfl
  rw [lexemeLength, hline, hlen, hbody]
  rfl

/-- A text that begins with a quote is no comment. -/
theorem lexemeLength_quote {q : Char} (hq : q ≠ '/') (cs : List Char) {others : Option (TokenKind × Nat)}
    (h : ((stringLength (q :: cs)).map (TokenKind.string, ·) <|> (templateLength (q :: cs)).map (TokenKind.template, ·)) = others)
    (hsome : others.isSome = true) : lexemeLength (q :: cs) = others := by
  have hline : lineCommentLength (q :: cs) = none := by
    rw [lineCommentLength]
    intro _ h
    injection h with h _
    exact hq h
  have hblock : blockCommentLength (q :: cs) = none := by
    rw [blockCommentLength]
    intro _ h
    injection h with h _
    exact hq h
  rw [lexemeLength, hline, hblock]
  subst h
  cases hs : stringLength (q :: cs) with
  | some n => rfl
  | none =>
    cases ht : templateLength (q :: cs) with
    | some n => rfl
    | none =>
      rw [hs, ht] at hsome
      cases hsome

theorem lexemeLength_string {w : List Char} (h : Shape .string w) (cs : List Char) :
    lexemeLength (w ++ cs) = some (.string, w.length) := by
  obtain ⟨q, body, rfl, hq, hend⟩ := h
  have hbody := (quoteEnd_take hend cs).2
  rw [List.take_length] at hbody
  have hlen : stringLength (q :: (body ++ cs)) = some (body.length + 1) := by
    rw [stringLength, if_pos (by rw [Bool.or_eq_true, decide_eq_true_eq, decide_eq_true_eq]; exact hq), hbody]
    rfl
  refine lexemeLength_quote ?_ (body ++ cs) (by rw [hlen]; rfl) rfl
  rcases hq with rfl | rfl <;> decide

theorem lexemeLength_template {w : List Char} (h : Shape .template w) (cs : List Char) :
    lexemeLength (w ++ cs) = some (.template, w.length) := by
  obtain ⟨body, rfl, hend⟩ := h
  have hbody := (quoteEnd_take hend cs).2
  rw [List.take_length] at hbody
  have hstring : stringLength ('\x60' :: (body ++ cs)) = none := rfl
  have hlen : templateLength ('\x60' :: (body ++ cs)) = some (body.length + 1) := by
    rw [templateLength, if_pos rfl, hbody]
    rfl
  exact lexemeLength_quote (by decide) (body ++ cs) (by rw [hstring, hlen]; rfl) rfl

theorem lexemeLength_blank {w : List Char} (h : Shape .blank w) (cs : List Char) :
    lexemeLength (w ++ cs) = some (.blank, w.length + run isBlankChar cs) := by
  obtain ⟨hne, hall⟩ := h
  have hlen : blankLength (w ++ cs) = some (w.length + run isBlankChar cs) := by
    have hpos := List.length_pos_iff.mpr hne
    unfold blankLength
    rw [run_append_of_all hall]
    split
    · rename_i hzero
      omega
    · rfl
  cases w with
  | nil => exact absurd rfl hne
  | cons c w =>
    rw [List.cons_append] at hlen ⊢
    rw [lexemeLength_cons (isGuard_of_isBlankChar (hall c List.mem_cons_self)), hlen]
    rfl

/-! ### Names, numbers and operators -/

/-- The text of a name, a number or an operator goes on in the text behind it. -/
def runsInto (k : TokenKind) (w cs : List Char) : Bool :=
  match k with
  | .identifier => cs.head?.any isNamePart
  | .number => cs.head?.any fun c => isNumberPart c || (c == '.' && !(w.drop 1).contains '.')
  | .punctuation => (w == ['.'] && cs.head?.any isDecimalDigit) || punctuationLength (w ++ cs) != some w.length
  | _ => false

theorem lexemeLength_identifier {w : List Char} (h : Shape .identifier w) (cs : List Char) :
    lexemeLength (w ++ cs) = some (.identifier, w.length + run isNamePart cs) := by
  obtain ⟨c, body, rfl, hstart, hdigit, hblank, hall⟩ := h
  have hpoint : c ≠ '.' := by
    rintro rfl
    cases hstart
  have hlen : nameLength (c :: (body ++ cs)) = some (1 + (body.length + run isNamePart cs)) := by
    rw [nameLength, if_pos hstart, run_append_of_all hall]
  have hnumber : numberLength (c :: (body ++ cs)) = none := by rw [numberLength_cons hpoint, hdigit, if_neg (by decide)]
  rw [List.cons_append, lexemeLength_cons (isGuard_of_isNamePart (isNamePart_of_isNameStart hstart)),
    (blankLength_cons _).mpr hblank, hnumber, hlen, List.length_cons, ← Nat.add_assoc, Nat.add_comm 1]
  rfl

/-- A number takes the word characters behind it and, if it has no point yet, a point and the word characters behind that. -/
theorem lexemeLength_number {w : List Char} (h : Shape .number w) (cs : List Char) :
    ∃ n, lexemeLength (w ++ cs) = some (.number, n) ∧ (n = w.length ↔ runsInto .number w cs = false) := by
  obtain ⟨d, body, hw, hd, htail⟩ := h
  -- what is read behind the first digit
  have hrest : ∃ m, numberRest (body ++ cs) = body.length + m ∧
      (m = 0 ↔ cs.head?.any (fun c => isNumberPart c || (c == '.' && !(body).contains '.')) = false) := by
    rcases htail with hall | ⟨a, b, rfl, ha, hb⟩
    · refine ⟨_, numberRest_append_of_all hall cs, numberRest_eq_zero_iff.trans ?_⟩
      have hno : body.contains '.' = false := by
        rw [Bool.eq_false_iff, Ne, List.contains_iff_mem]
        intro hmem
        nomatch hall '.' hmem
      simp only [hno, Bool.not_false, Bool.and_true]
    · refine ⟨_, numberRest_append_of_point ha hb cs, run_eq_zero_iff.trans ?_⟩
      have hyes : (a ++ '.' :: b).contains '.' = true := List.contains_iff_mem.mpr (by simp)
      simp only [hyes, Bool.not_true, Bool.and_false, Bool.or_false]
  obtain ⟨m, hm, hzero⟩ := hrest
  have hpoint : d ≠ '.' := by
    rintro rfl
    exact absurd hd (by decide)
  rcases hw with rfl | rfl
  · refine ⟨1 + (body.length + m), ?_, ?_⟩
    · rw [List.cons_append, lexemeLength_cons (isGuard_of_isDecimalDigit hd),
        (blankLength_cons _).mpr (isBlankChar_of_isDecimalDigit hd), numberLength_cons hpoint, if_pos hd, hm]
      rfl
    · rw [runsInto, List.drop_one, List.tail_cons, ← hzero, List.length_cons]
      omega
  · refine ⟨2 + (body.length + m), ?_, ?_⟩
    · have hlen : numberLength ('.' :: d :: (body ++ cs)) = some (2 + numberRest (body ++ cs)) := by
        rw [numberLength, if_pos hd]
      rw [List.cons_append, List.cons_append, lexemeLength_cons (by decide), (blankLength_cons _).mpr (by decide), hlen, hm]
      rfl
    · have hsame : (d :: body).contains '.' = body.contains '.' := by
        rw [List.contains_cons, beq_false_of_ne hpoint.symm, Bool.false_or]
      rw [runsInto, List.drop_one, List.tail_cons, hsame, ← hzero, List.length_cons, List.length_cons]
      omega

/-- A character that begins neither a comment nor a text in quotes, is not blank and begins no name and no number. -/
def beginsMark (c : Char) : Bool := !isGuard c && !isBlankChar c && !isDecimalDigit c && !isNameStart c

/-- An operator or a mark, other than a slash, begins with such a character. One that begins with a point is the point alone or has
another point behind it. -/
theorem punctuation_head {w : List Char} (h : Shape .punctuation w) (hslash : w ≠ ['/'] ∧ w ≠ ['/', '=']) :
    ∃ c body, w = c :: body ∧ beginsMark c = true ∧ (c = '.' → body = [] ∨ body.head? = some '.') := by
  have hops : ∀ w ∈ operators, w ≠ ['/', '='] → w.head?.any beginsMark = true ∧ (w.head? = some '.' → w.tail.head? = some '.') := by
    decide
  have hmarks : (marks.erase '/').all beginsMark = true := by decide
  rcases h with hmem | ⟨c, hmem, rfl⟩
  · obtain ⟨hbegins, hpoint⟩ := hops w hmem hslash.2
    cases w with
    | nil => nomatch hbegins
    | cons c body => exact ⟨c, body, rfl, hbegins, fun hc => Or.inr (hpoint (congrArg some hc))⟩
  · have hne : c ≠ '/' := fun hc => hslash.1 (by rw [hc])
    exact ⟨c, [], rfl, List.all_eq_true.mp hmarks c ((List.mem_erase_of_ne hne).mpr hmem), fun _ => Or.inl rfl⟩

/-- A point is read as the start of a number if a digit is behind it; otherwise the longest operator is read. -/
theorem lexemeLength_punctuation {w : List Char} (h : Shape .punctuation w) (hslash : w ≠ ['/'] ∧ w ≠ ['/', '=']) (cs : List Char) :
    lexemeLength (w ++ cs) = some (.punctuation, w.length) ↔ runsInto .punctuation w cs = false := by
  obtain ⟨c, body, rfl, hbegins, hpoint⟩ := punctuation_head h hslash
  simp only [beginsMark, Bool.and_eq_true, Bool.not_eq_true'] at hbegins
  obtain ⟨⟨⟨hguard, hblank⟩, hdigit⟩, hname⟩ := hbegins
  have hnames : nameLength (c :: (body ++ cs)) = none := by rw [nameLength, hname, if_neg (by decide)]
  have hread : lexemeLength (c :: body ++ cs) = ((numberLength (c :: (body ++ cs))).map (TokenKind.number, ·) <|>
      (punctuationLength (c :: (body ++ cs))).map (TokenKind.punctuation, ·)) := by
    rw [List.cons_append, lexemeLength_cons hguard, (blankLength_cons _).mpr hblank, hnames]
    rfl
  have hnumber : (numberLength (c :: (body ++ cs))).isSome = (c :: body == ['.'] && cs.head?.any isDecimalDigit) := by
    by_cases hc : c = '.'
    · subst hc
      rcases hpoint rfl with rfl | hmore
      · cases cs with
        | nil => rfl
        | cons d cs =>
          cases hd : isDecimalDigit d <;> simp [numberLength, hd]
      · cases body with
        | nil => cases hmore
        | cons d more =>
          injection hmore with hd
          subst hd
          rfl
    · rw [numberLength_cons hc, hdigit, if_neg (by decide), Option.isSome_none]
      have hne : (c :: body == ['.']) = false := beq_false_of_ne fun h => hc (List.cons.inj h).1
      rw [hne, Bool.false_and]
  rw [hread, runsInto, List.cons_append]
  cases hn : numberLength (c :: (body ++ cs)) with
  | some n =>
    rw [hn, Option.isSome_some] at hnumber
    rw [← hnumber, Bool.true_or]
    constructor <;> intro h <;> cases h
  | none =>
    rw [hn, Option.isSome_none] at hnumber
    rw [← hnumber, Bool.false_or, bne_eq_false_iff_eq]
    cases hp : punctuationLength (c :: (body ++ cs)) with
    | none => constructor <;> intro h <;> cases h
    | some m =>
      constructor
      · intro heq
        injection heq with heq
        rw [(Prod.mk.inj heq).2]
      · intro heq
        rw [heq]
        rfl

/-- A token that is no trivia is read again in front of another text exactly if it does not run into it. -/
theorem lexemeLength_append_iff {k : TokenKind} {w : List Char} (h : Shape k w)
    (hk : k ≠ .blank ∧ k ≠ .lineComment ∧ k ≠ .blockComment) (hslash : w ≠ ['/'] ∧ w ≠ ['/', '=']) (cs : List Char) :
    lexemeLength (w ++ cs) = some (k, w.length) ↔ runsInto k w cs = false := by
  cases k with
  | lineComment => exact absurd rfl hk.2.1
  | blockComment => exact absurd rfl hk.2.2
  | blank => exact absurd rfl hk.1
  | string => exact iff_of_true (lexemeLength_string h cs) rfl
  | template => exact iff_of_true (lexemeLength_template h cs) rfl
  | number =>
    obtain ⟨n, hn, hiff⟩ := lexemeLength_number h cs
    rw [hn, ← hiff]
    exact ⟨fun heq => (Prod.mk.inj (Option.some.inj heq)).2, fun heq => by rw [heq]⟩
  | identifier =>
    rw [lexemeLength_identifier h cs, runsInto, ← run_eq_zero_iff]
    constructor
    · intro heq
      have hlen := (Prod.mk.inj (Option.some.inj heq)).2
      omega
    · intro heq
      rw [heq, Nat.add_zero]
  | punctuation => exact lexemeLength_punctuation h hslash cs
  | regex => exact h.elim

end ScriptLoader.Syntax
