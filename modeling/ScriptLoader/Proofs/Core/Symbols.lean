import ScriptLoader.Proofs.Lexer.Lexeme
import ScriptLoader.Proofs.Lexer.Meaning

/-!
# Symbols

The grammar of the core language speaks of symbols: lexemes, each marked as code, which stays, or as type syntax, which is erased.
`Written` says that some tokens are the symbols with blanks and comments between them.
-/

namespace ScriptLoader.Syntax

/-- A lexeme of the grammar. -/
structure Sym where
  lexeme : Lexeme
  /-- The lexeme is code; otherwise it is type syntax. -/
  kept : Bool
  /-- Nothing may stand between the symbol and the one before it. -/
  glued : Bool

/-- A word. -/
abbrev word (s : String) : Lexeme := (.identifier, s)

/-- A mark or an operator. -/
abbrev mark (s : String) : Lexeme := (.punctuation, s)

def code (m : Lexeme) : Sym := ⟨m, true, false⟩

def typed (m : Lexeme) : Sym := ⟨m, false, false⟩

/-- The exclamation mark right behind an expression or the name of a field. -/
def assertion : Sym := ⟨mark "!", false, true⟩

/-- What stays of the symbols. -/
def said (ss : List Sym) : List Lexeme := (ss.filter Sym.kept).map Sym.lexeme

@[simp] theorem said_nil : said [] = [] := rfl

@[simp] theorem said_append (ss us : List Sym) : said (ss ++ us) = said ss ++ said us := by
  rw [said, List.filter_append, List.map_append, said, said]

@[simp] theorem said_code_cons (m : Lexeme) (ss : List Sym) : said (code m :: ss) = m :: said ss := rfl

@[simp] theorem said_typed_cons (m : Lexeme) (ss : List Sym) : said (typed m :: ss) = said ss := rfl

@[simp] theorem said_assertion_cons (ss : List Sym) : said (assertion :: ss) = said ss := rfl

/-- Nothing stays of a type. -/
@[simp] theorem said_map_typed (ms : List Lexeme) : said (ms.map typed) = [] := by
  induction ms with
  | nil => rfl
  | cons m ms ih => exact ih

theorem glued_map_typed (ms : List Lexeme) : ∀ s ∈ ms.map typed, s.glued = false := by
  intro s hs
  obtain ⟨m, _, rfl⟩ := List.mem_map.mp hs
  rfl

/-- The tokens, which the lexer made, are the symbols, with trivia between them, and then `rest`. -/
inductive Written : List Sym → List Token → List Token → Prop where
  | nil (rest : List Token) : Written [] rest rest
  | trivia {s : Sym} {ss : List Sym} {t : Token} {ts rest : List Token} (ht : t.isTrivia = true) (hshape : t.Shaped)
      (hs : s.glued = false) (h : Written (s :: ss) ts rest) : Written (s :: ss) (t :: ts) rest
  | token {s : Sym} {ss : List Sym} {t : Token} {ts rest : List Token} (ht : t.isTrivia = false) (hshape : t.Shaped)
      (hs : t.lexeme = s.lexeme) (h : Written ss ts rest) : Written (s :: ss) (t :: ts) rest

namespace Written

theorem nil_iff {ts rest : List Token} : Written [] ts rest ↔ ts = rest := by
  constructor
  · rintro ⟨⟩
    rfl
  · rintro rfl
    exact .nil ts

/-- Trivia, the token of the first symbol, and the other symbols. -/
theorem uncons {s : Sym} {ss : List Sym} {ts rest : List Token} (h : Written (s :: ss) ts rest) :
    ∃ blanks t us, ts = blanks ++ t :: us ∧ (∀ b ∈ blanks, b.isTrivia = true ∧ b.Shaped) ∧ (s.glued = true → blanks = []) ∧
      t.isTrivia = false ∧ t.Shaped ∧ t.lexeme = s.lexeme ∧ Written ss us rest := by
  generalize hss : s :: ss = symbols at h
  induction h with
  | nil => nomatch hss
  | token ht hshape hs h =>
    obtain ⟨rfl, rfl⟩ := List.cons.inj hss
    exact ⟨[], _, _, rfl, nofun, fun _ => rfl, ht, hshape, hs, h⟩
  | trivia ht hshape hs h ih =>
    obtain ⟨rfl, rfl⟩ := List.cons.inj hss
    obtain ⟨blanks, t, us, rfl, hblanks, _, hrest⟩ := ih rfl
    refine ⟨_ :: blanks, t, us, rfl, fun b hb => ?_, fun hglued => ?_, hrest⟩
    · rcases List.mem_cons.mp hb with rfl | hb
      · exact ⟨ht, hshape⟩
      · exact hblanks b hb
    · rw [hs] at hglued
      nomatch hglued

/-- The next token that is no trivia is the first symbol. -/
theorem significant {s : Sym} {ss : List Sym} {ts rest : List Token} (h : Written (s :: ss) ts rest) :
    ∃ t us, Syntax.significant ts = t :: us ∧ t.isTrivia = false ∧ t.Shaped ∧ t.lexeme = s.lexeme ∧ Written ss us rest := by
  obtain ⟨blanks, t, us, rfl, hblanks, _, ht, hshape, hs, hrest⟩ := h.uncons
  refine ⟨t, us, ?_, ht, hshape, hs, hrest⟩
  rw [significant_append_of_trivia fun b hb => (hblanks b hb).1, significant_cons_of_not ht]

/-- Some symbols and then others. -/
theorem split {ss us : List Sym} {ts rest : List Token} (h : Written (ss ++ us) ts rest) :
    ∃ mid, Written ss ts mid ∧ Written us mid rest := by
  generalize hsym : ss ++ us = symbols at h
  induction h generalizing ss with
  | nil rest =>
    obtain ⟨rfl, rfl⟩ := List.append_eq_nil_iff.mp hsym
    exact ⟨rest, .nil rest, .nil rest⟩
  | @trivia s symbols t ts rest ht hshape hs h ih =>
    cases ss with
    | nil =>
      obtain rfl : us = s :: symbols := hsym
      exact ⟨t :: ts, .nil _, .trivia ht hshape hs h⟩
    | cons s' ss =>
      obtain ⟨mid, hfirst, hsecond⟩ := ih hsym
      obtain ⟨rfl, _⟩ := List.cons.inj hsym
      exact ⟨mid, .trivia ht hshape hs hfirst, hsecond⟩
  | @token s symbols t ts rest ht hshape hs h ih =>
    cases ss with
    | nil =>
      obtain rfl : us = s :: symbols := hsym
      exact ⟨t :: ts, .nil _, .token ht hshape hs h⟩
    | cons s' ss =>
      obtain ⟨rfl, htail⟩ := List.cons.inj hsym
      obtain ⟨mid, hfirst, hsecond⟩ := ih htail
      exact ⟨mid, .token ht hshape hs hfirst, hsecond⟩

theorem append {ss us : List Sym} {ts mid rest : List Token} (h : Written ss ts mid) (h' : Written us mid rest) :
    Written (ss ++ us) ts rest := by
  induction h with
  | nil => exact h'
  | trivia ht hshape hs _ ih => exact .trivia ht hshape hs (ih h')
  | token ht hshape hs _ ih => exact .token ht hshape hs (ih h')

/-- What follows makes no difference. -/
theorem extend {ss : List Sym} {ts rest : List Token} (h : Written ss ts rest) (us : List Token) :
    Written ss (ts ++ us) (rest ++ us) := by
  induction h with
  | nil => exact .nil _
  | trivia ht hshape hs _ ih => exact .trivia ht hshape hs ih
  | token ht hshape hs _ ih => exact .token ht hshape hs ih

/-- What the tokens say is the lexemes of the symbols. -/
theorem lexemes_eq {ss : List Sym} {ts rest : List Token} (h : Written ss ts rest) :
    lexemes ts = ss.map Sym.lexeme ++ lexemes rest := by
  induction h with
  | nil => rfl
  | trivia ht _ _ _ ih => rw [lexemes_cons_of_trivia ht, ih]
  | token ht _ hs _ ih => rw [lexemes_cons_of_not ht, ih, hs, List.map_cons, List.cons_append]

theorem suffix {ss : List Sym} {ts rest : List Token} (h : Written ss ts rest) : rest <:+ ts := by
  induction h with
  | nil rest => exact List.suffix_refl rest
  | trivia _ _ _ _ ih => exact ih.trans (List.suffix_cons _ _)
  | token _ _ _ _ ih => exact ih.trans (List.suffix_cons _ _)

/-- What is behind a symbol is shorter. -/
theorem length_lt {s : Sym} {ss : List Sym} {ts rest : List Token} (h : Written (s :: ss) ts rest) : rest.length < ts.length := by
  obtain ⟨blanks, t, us, rfl, _, _, _, _, _, hrest⟩ := h.uncons
  have hle := hrest.suffix.length_le
  rw [List.length_append, List.length_cons]
  omega

end Written

/-- Tokens that say the symbols are the symbols with trivia between them, where no symbol has to stand right behind the one before. -/
theorem written_of_lexemes {ss : List Sym} (hglued : ∀ s ∈ ss, s.glued = false) {ts : List Token} (hshape : ∀ t ∈ ts, t.Shaped)
    (h : lexemes ts = ss.map Sym.lexeme) : ∃ rest, Written ss ts rest ∧ ∀ t ∈ rest, t.isTrivia = true ∧ t.Shaped := by
  induction ts generalizing ss with
  | nil =>
    obtain rfl : ss = [] := List.map_eq_nil_iff.mp h.symm
    exact ⟨[], .nil [], nofun⟩
  | cons t ts ih =>
    obtain ⟨ht, hts⟩ := List.forall_mem_cons.mp hshape
    cases htrivia : t.isTrivia with
    | true =>
      rw [lexemes_cons_of_trivia htrivia] at h
      obtain ⟨rest, hw, hrest⟩ := ih hglued hts h
      cases ss with
      | nil =>
        obtain rfl := Written.nil_iff.mp hw
        exact ⟨t :: ts, .nil _, List.forall_mem_cons.mpr ⟨⟨htrivia, ht⟩, hrest⟩⟩
      | cons s ss => exact ⟨rest, .trivia htrivia ht (hglued s List.mem_cons_self) hw, hrest⟩
    | false =>
      rw [lexemes_cons_of_not htrivia] at h
      cases ss with
      | nil => nomatch h
      | cons s ss =>
        obtain ⟨hs, hss⟩ := List.cons.inj h
        obtain ⟨rest, hw, hrest⟩ := ih (List.forall_mem_cons.mp hglued).2 hts hss
        exact ⟨rest, .token htrivia ht hs hw, hrest⟩

/-- Tokens that say the symbols and then something else. -/
theorem exists_written_of_lexemes {ss : List Sym} {others : List Lexeme} (hglued : ∀ s ∈ ss, s.glued = false) {ts : List Token}
    (hshape : ∀ t ∈ ts, t.Shaped) (h : lexemes ts = ss.map Sym.lexeme ++ others) : ∃ rest, Written ss ts rest ∧ lexemes rest = others := by
  have hglued' : ∀ s ∈ ss ++ others.map typed, s.glued = false := by
    intro s hs
    rcases List.mem_append.mp hs with hs | hs
    · exact hglued s hs
    · exact glued_map_typed others s hs
  have hsame : lexemes ts = (ss ++ others.map typed).map Sym.lexeme := by
    rw [h, List.map_append, List.map_map]
    exact congrArg _ (List.map_id others).symm
  obtain ⟨last, hw, _⟩ := written_of_lexemes hglued' hshape hsame
  obtain ⟨rest, hfirst, _⟩ := hw.split
  exact ⟨rest, hfirst, List.append_cancel_left (hfirst.lexemes_eq.symm.trans h)⟩

end ScriptLoader.Syntax
