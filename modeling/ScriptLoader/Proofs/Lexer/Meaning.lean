import ScriptLoader.Syntax.Token

/-!
# The meaning of a token list

What the tokens of a source say, trivia aside (`meaning`), and how the next token that is no trivia is found.
-/

namespace ScriptLoader.Syntax

/-- The tokens that are no trivia. -/
def meaning (ts : List Token) : List Token := ts.filter fun t => !t.isTrivia

@[simp] theorem meaning_nil : meaning [] = [] := rfl

theorem meaning_append (ts us : List Token) : meaning (ts ++ us) = meaning ts ++ meaning us := List.filter_append ..

theorem meaning_cons_of_trivia {t : Token} (h : t.isTrivia = true) (ts : List Token) : meaning (t :: ts) = meaning ts :=
  List.filter_cons_of_neg (by rw [h]; decide)

theorem meaning_cons_of_not {t : Token} (h : t.isTrivia = false) (ts : List Token) : meaning (t :: ts) = t :: meaning ts :=
  List.filter_cons_of_pos (by rw [h]; rfl)

theorem meaning_of_trivia {ts : List Token} (h : ∀ t ∈ ts, t.isTrivia = true) : meaning ts = [] :=
  List.filter_eq_nil_iff.mpr fun t ht => by rw [h t ht]; decide

/-! ## Lexemes -/

/-- Blanks and comments. -/
def TokenKind.isTrivia (k : TokenKind) : Bool := k == .blank || k == .lineComment || k == .blockComment

/-- The class and the text of a token, wherever it stands. -/
abbrev Lexeme := TokenKind × String

def Token.lexeme (t : Token) : Lexeme := (t.kind, t.text)

/-- What the tokens say, trivia aside. -/
def lexemes (ts : List Token) : List Lexeme := (meaning ts).map Token.lexeme

@[simp] theorem lexemes_nil : lexemes [] = [] := rfl

theorem lexemes_append (ts us : List Token) : lexemes (ts ++ us) = lexemes ts ++ lexemes us := by
  rw [lexemes, meaning_append, List.map_append, lexemes, lexemes]

theorem lexemes_reverse (ts : List Token) : lexemes ts.reverse = (lexemes ts).reverse := by
  rw [lexemes, meaning, List.filter_reverse, List.map_reverse, lexemes, meaning]

theorem lexemes_cons_of_trivia {t : Token} (h : t.isTrivia = true) (ts : List Token) : lexemes (t :: ts) = lexemes ts := by
  rw [lexemes, meaning_cons_of_trivia h, lexemes]

theorem lexemes_cons_of_not {t : Token} (h : t.isTrivia = false) (ts : List Token) :
    lexemes (t :: ts) = t.lexeme :: lexemes ts := by
  rw [lexemes, meaning_cons_of_not h, List.map_cons, lexemes]

/-! ## The next token that is no trivia -/

theorem significant_append_of_trivia {blanks : List Token} (h : ∀ b ∈ blanks, b.isTrivia = true) (ts : List Token) :
    significant (blanks ++ ts) = significant ts := List.dropWhile_append_of_pos h

theorem significant_cons_of_not {t : Token} (h : t.isTrivia = false) (ts : List Token) : significant (t :: ts) = t :: ts := by
  rw [significant, List.dropWhile_cons, h]
  rfl

/-- Before the next token that is no trivia stand only trivia. -/
theorem eq_trivia_append_significant (ts : List Token) :
    ∃ blanks, ts = blanks ++ significant ts ∧ ∀ b ∈ blanks, b.isTrivia = true :=
  ⟨ts.takeWhile Token.isTrivia, List.takeWhile_append_dropWhile.symm, List.all_eq_true.mp List.all_takeWhile⟩

/-- The tokens from the next one on that is no trivia, and what they say. -/
theorem significant_cases (ts : List Token) :
    (significant ts = [] ∧ lexemes ts = []) ∨
      ∃ t us, significant ts = t :: us ∧ t.isTrivia = false ∧ lexemes ts = t.lexeme :: lexemes us := by
  induction ts with
  | nil => exact Or.inl ⟨rfl, rfl⟩
  | cons t ts ih =>
    cases ht : t.isTrivia with
    | true =>
      have hs : significant (t :: ts) = significant ts := @significant_append_of_trivia [t] (by simpa using ht) ts
      rw [hs, lexemes_cons_of_trivia ht]
      exact ih
    | false => exact Or.inr ⟨t, ts, significant_cons_of_not ht ts, ht, lexemes_cons_of_not ht ts⟩

theorem head?_lexemes {ts us : List Token} {t : Token} (h : significant ts = t :: us) : (lexemes ts).head? = some t.lexeme := by
  rcases significant_cases ts with ⟨hs, _⟩ | ⟨t', us', hs, _, hl⟩
  · rw [hs] at h
    nomatch h
  · rw [hs] at h
    rw [hl, (List.cons.inj h).1]
    rfl

/-- The first lexeme is that of a token behind the blanks and comments. -/
theorem exists_of_head?_lexemes {ts : List Token} {m : Lexeme} (h : (lexemes ts).head? = some m) :
    ∃ t us, significant ts = t :: us ∧ t.isTrivia = false ∧ t.lexeme = m := by
  rcases significant_cases ts with ⟨_, hl⟩ | ⟨t, us, hs, ht, hl⟩
  · simp [hl] at h
  · rw [hl] at h
    exact ⟨t, us, hs, ht, Option.some.inj h⟩

theorem lexemes_tail_significant (ts : List Token) : lexemes (significant ts).tail = (lexemes ts).tail := by
  rcases significant_cases ts with ⟨hs, hl⟩ | ⟨t, us, hs, _, hl⟩
  · rw [hs, hl]
    rfl
  · rw [hs, hl]
    rfl

/-- Blanks say nothing. -/
theorem lexemes_dropBlanks (ts : List Token) : lexemes (ts.dropWhile (·.kind == .blank)) = lexemes ts := by
  induction ts with
  | nil => rfl
  | cons t ts ih =>
    rw [List.dropWhile_cons]
    split
    · rename_i hblank
      rw [ih, lexemes_cons_of_trivia]
      rw [Token.isTrivia, hblank, Bool.true_or, Bool.true_or]
    · rfl

/-! What the eraser asks of the next token is asked of what the tokens say. -/

theorem headText_significant (ts : List Token) : headText (significant ts) = (lexemes ts).head?.map (·.2) := by
  rcases significant_cases ts with ⟨hs, hl⟩ | ⟨t, us, hs, _, hl⟩ <;> rw [hs, hl] <;> rfl

theorem headKind_significant (ts : List Token) : headKind (significant ts) = (lexemes ts).head?.map (·.1) := by
  rcases significant_cases ts with ⟨hs, hl⟩ | ⟨t, us, hs, _, hl⟩ <;> rw [hs, hl] <;> rfl

theorem headIsName_significant (ts : List Token) :
    headIsName (significant ts) = (lexemes ts).head?.any fun m => m.1 == .identifier := by
  rcases significant_cases ts with ⟨hs, hl⟩ | ⟨t, us, hs, _, hl⟩ <;> rw [hs, hl] <;> rfl

theorem headIn_significant (ts : List Token) (texts : List String) :
    headIn (significant ts) texts = (lexemes ts).head?.any fun m => texts.contains m.2 := by
  rcases significant_cases ts with ⟨hs, hl⟩ | ⟨t, us, hs, _, hl⟩ <;> rw [hs, hl] <;> rfl

end ScriptLoader.Syntax
