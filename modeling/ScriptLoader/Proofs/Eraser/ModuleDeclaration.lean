import ScriptLoader.Proofs.Core.Keeping
import ScriptLoader.Proofs.Eraser.Moves

/-!
# Imports and exports

Imports and exports as they are written (`ValueDeclaration`, `TypeOnlyDeclaration`), and what the eraser's four scanners make of one of
them: an import that is copied ends at its module name, an export at its clause or behind the module name, and a declaration of types alone
is skipped to the same place, with a semicolon behind it.
-/

namespace ScriptLoader.Syntax

/-! ## Declarations as they are written -/

/-- Names with commas between them, each perhaps with the name by which it goes. -/
inductive Names : List Lexeme → Prop where
  | nil : Names []
  | plain (x : String) : Names [word x]
  | renamed (x y : String) : Names [word x, word "as", word y]
  | morePlain (x : String) {ms : List Lexeme} (h : Names ms) : Names (word x :: mark "," :: ms)
  | moreRenamed (x y : String) {ms : List Lexeme} (h : Names ms) : Names (word x :: word "as" :: word y :: mark "," :: ms)

/-- Names in curly brackets. -/
def inCurly (ms : List Lexeme) : List Lexeme := mark "\x7b" :: ms ++ [mark "\x7d"]

/-- What an import introduces: the default of a module, the module as a whole, names, or the default and names. -/
inductive ImportClause : List Lexeme → Prop where
  | default (x : String) : ImportClause [word x]
  | star (x : String) : ImportClause [mark "*", word "as", word x]
  | names {ms : List Lexeme} (h : Names ms) : ImportClause (inCurly ms)
  | defaultAndNames (x : String) {ms : List Lexeme} (h : Names ms) : ImportClause (word x :: mark "," :: inCurly ms)

/-- What is exported: what stands in curly brackets, or all of a module, perhaps by one name. -/
inductive ExportClause : List Lexeme → Prop where
  | names {ms : List Lexeme} (h : Group .curly ms) : ExportClause ms
  | star : ExportClause [mark "*"]
  | starAs (x : String) : ExportClause [mark "*", word "as", word x]

/-- An import or an export of values. -/
inductive ValueDeclaration : List Lexeme → Prop where
  | importModule {m : Lexeme} (hm : m.1 = .string) : ValueDeclaration [word "import", m]
  | importFrom {ms : List Lexeme} {m : Lexeme} (h : ImportClause ms) (hm : m.1 = .string) :
      ValueDeclaration (word "import" :: (ms ++ [word "from", m]))
  | exportLocal {ms : List Lexeme} (h : ExportClause ms) : ValueDeclaration (word "export" :: ms)
  | exportFrom {ms : List Lexeme} {m : Lexeme} (h : ExportClause ms) (hm : m.1 = .string) :
      ValueDeclaration (word "export" :: (ms ++ [word "from", m]))

/-- An import or an export of types alone. A default that is imported is not called `from`. -/
inductive TypeOnlyDeclaration : List Lexeme → Prop where
  | importFrom {ms : List Lexeme} {m : Lexeme} (h : ImportClause ms) (hbound : ms.head? ≠ some (word "from")) (hm : m.1 = .string) :
      TypeOnlyDeclaration (word "import" :: word "type" :: (ms ++ [word "from", m]))
  | importNames {ms : List Lexeme} {m : Lexeme} (h : Group .curly ms) (hm : m.1 = .string) :
      TypeOnlyDeclaration (word "import" :: word "type" :: (ms ++ [word "from", m]))
  | exportLocal {ms : List Lexeme} (h : Group .curly ms) : TypeOnlyDeclaration (word "export" :: word "type" :: ms)
  | exportFrom {ms : List Lexeme} {m : Lexeme} (h : ExportClause ms) (hm : m.1 = .string) :
      TypeOnlyDeclaration (word "export" :: word "type" :: (ms ++ [word "from", m]))

/-- The tokens spell the lexemes, and neither the first nor the last of them is trivia. -/
structure Compact (ds : List Token) (ms : List Lexeme) : Prop where
  spells : lexemes ds = ms
  first : ∀ t ∈ ds.head?, t.isTrivia = false
  last : ∀ t ∈ ds.getLast?, t.isTrivia = false

/-- The module that a declaration names, if it ends in a string. -/
def specifier? (ds : List Token) : Option Specifier :=
  (ds.getLast?.filter (·.kind == .string)).map fun s => ⟨Eraser.unquoted s.text, s.position.line⟩

/-- A semicolon, or nothing. -/
def Ending (us : List Token) : Prop := us = [] ∨ ∃ t : Token, us = [t] ∧ t.lexeme = mark ";"

/-! ## The tokens of a declaration -/

section Tokens

variable {ds ts rest : List Token} {ms : List Lexeme}

/-- Tokens of which the last is no trivia are written out up to their end. -/
theorem written_of_last (hshape : ∀ t ∈ ds, t.Shaped) (hlast : ∀ t ∈ ds.getLast?, t.isTrivia = false) (rest : List Token) :
    Written ((lexemes ds).map typed) (ds ++ rest) rest := by
  induction ds with
  | nil => exact .nil rest
  | cons t ds ih =>
    obtain ⟨ht, hds⟩ := List.forall_mem_cons.mp hshape
    cases htrivia : t.isTrivia with
    | false =>
      rw [lexemes_cons_of_not htrivia]
      refine .token htrivia ht rfl (ih hds fun u hu => hlast u ?_)
      cases ds with
      | nil => nomatch hu
      | cons d ds => rwa [List.getLast?_cons_cons]
    | true =>
      rw [lexemes_cons_of_trivia htrivia]
      cases ds with
      | nil =>
        rw [hlast t rfl] at htrivia
        nomatch htrivia
      | cons d ds =>
        rw [List.getLast?_cons_cons] at hlast
        have hw := ih hds hlast
        -- the last token is one that says something
        have hmem : (d :: ds).getLast (by simp) ∈ meaning (d :: ds) := by
          refine List.mem_filter.mpr ⟨List.getLast_mem _, ?_⟩
          rw [hlast _ (List.getLast?_eq_some_getLast _)]
          rfl
        cases hlexemes : lexemes (d :: ds) with
        | nil => exact absurd (List.map_eq_nil_iff.mp hlexemes) (List.ne_nil_of_mem hmem)
        | cons m ms =>
          rw [hlexemes] at hw
          exact .trivia htrivia ht rfl hw

theorem Compact.written (h : Compact ds ms) (hshape : ∀ t ∈ ds, t.Shaped) (rest : List Token) :
    Written (ms.map typed) (ds ++ rest) rest := h.spells ▸ written_of_last hshape h.last rest

/-- The first token, and the tokens behind it. -/
theorem Compact.uncons {m : Lexeme} (h : Compact ds (m :: ms)) :
    ∃ t us, ds = t :: us ∧ t.isTrivia = false ∧ t.lexeme = m ∧ lexemes us = ms := by
  cases ds with
  | nil => nomatch h.spells
  | cons t us =>
    have ht := h.first t rfl
    have hspells := h.spells
    rw [lexemes_cons_of_not ht] at hspells
    exact ⟨t, us, rfl, ht, List.cons.inj hspells⟩

/-- The tokens before the last one, and the last one. -/
theorem Compact.unsnoc {m : Lexeme} (h : Compact ds (ms ++ [m])) :
    ∃ us s, ds = us ++ [s] ∧ s.isTrivia = false ∧ s.lexeme = m ∧ lexemes us = ms := by
  rcases List.eq_nil_or_concat ds with rfl | ⟨us, s, rfl⟩
  · exact absurd h.spells.symm (List.append_ne_nil_of_right_ne_nil _ (List.cons_ne_nil _ _))
  · rw [List.concat_eq_append] at h ⊢
    have hs := h.last s (by rw [List.getLast?_concat]; rfl)
    have hspells := h.spells
    rw [lexemes_append, lexemes_cons_of_not hs, lexemes_nil] at hspells
    obtain ⟨hus, hm⟩ := List.append_inj' hspells rfl
    exact ⟨us, s, rfl, hs, (List.cons.inj hm).1, hus⟩

/-- Behind the first token of a declaration the others are written. -/
theorem Compact.written_tail {m : Lexeme} (h : Compact ds (m :: ms)) (hshape : ∀ t ∈ ds, t.Shaped) (rest : List Token) :
    ∃ t us, ds = t :: us ∧ t.isTrivia = false ∧ t.lexeme = m ∧ Written (ms.map typed) (us ++ rest) rest := by
  have hw := h.written hshape rest
  obtain ⟨t, us, rfl, ht, hm, _⟩ := h.uncons
  refine ⟨t, us, rfl, ht, hm, ?_⟩
  cases hw with
  | trivia htrivia => rw [ht] at htrivia; nomatch htrivia
  | token _ _ _ hw => exact hw

/-- A token of another class than punctuation has the text of no mark, wherever it stands. -/
theorem shaped_of_written (hw : Written (ms.map typed) ts rest) : ∀ m ∈ ms, m.1 ≠ .punctuation → beginsOther m.2.toList = true := by
  induction ms generalizing ts with
  | nil => nofun
  | cons m ms ih =>
    obtain ⟨t, us, _, _, hshape, ht, hrest⟩ := hw.significant
    have hm : t.lexeme = m := ht
    subst hm
    exact List.forall_mem_cons.mpr ⟨beginsOther_of_shape hshape, ih hrest⟩

/-- The text of a string is the text of nothing else. -/
theorem text_ne_of_string {t : Token} (hshape : t.Shaped) (hkind : t.kind = .string) {s : String}
    (hs : s.toList.head?.all (fun c => c != '\x22' && c != '\x27') = true) : t.text ≠ s := by
  rintro rfl
  rw [Token.Shaped, hkind] at hshape
  obtain ⟨q, body, htext, hq, _⟩ := hshape
  rw [htext] at hs
  rcases hq with rfl | rfl <;> exact Bool.false_ne_true hs

end Tokens

/-! ## Clauses -/

/-- What a clause has outside curly brackets. -/
def IsPlain (m : Lexeme) : Prop := m.1 = .identifier ∨ m ∈ [mark "*", mark ","]

section Clauses

variable {ms : List Lexeme}

theorem isPlain_word (x : String) : IsPlain (word x) := Or.inl rfl

theorem plain_of_names (h : Names ms) : ∀ m ∈ ms, IsPlain m := by
  have hcomma : IsPlain (mark ",") := Or.inr (by decide)
  induction h with
  | nil => nofun
  | plain x => exact List.forall_mem_singleton.mpr (isPlain_word x)
  | renamed x y =>
    exact List.forall_mem_cons.mpr ⟨isPlain_word x, List.forall_mem_cons.mpr ⟨isPlain_word "as",
      List.forall_mem_singleton.mpr (isPlain_word y)⟩⟩
  | morePlain x h ih => exact List.forall_mem_cons.mpr ⟨isPlain_word x, List.forall_mem_cons.mpr ⟨hcomma, ih⟩⟩
  | moreRenamed x y h ih =>
    exact List.forall_mem_cons.mpr ⟨isPlain_word x, List.forall_mem_cons.mpr ⟨isPlain_word "as",
      List.forall_mem_cons.mpr ⟨isPlain_word y, List.forall_mem_cons.mpr ⟨hcomma, ih⟩⟩⟩⟩

/-- A plain lexeme is no bracket. -/
theorem not_bracket_of_plain {m : Lexeme} (h : IsPlain m) (hshape : m.1 ≠ .punctuation → beginsOther m.2.toList = true) :
    Bracket.opened? m.2 = none ∧ Bracket.closed? m.2 = none := by
  rcases h with hword | hmark
  · have hne := fun {s : String} => ne_of_beginsOther (m := s) (hshape (by rw [hword]; decide))
    constructor
    · rw [Bracket.opened?, if_neg (hne (by decide)), if_neg (hne (by decide)), if_neg (hne (by decide))]
    · rw [Bracket.closed?, if_neg (hne (by decide)), if_neg (hne (by decide)), if_neg (hne (by decide))]
  · have hall : ∀ m ∈ [mark "*", mark ","], Bracket.opened? m.2 = none ∧ Bracket.closed? m.2 = none := by decide
    exact hall m hmark

theorem nested_of_plain (h : ∀ m ∈ ms, IsPlain m) (hshape : ∀ m ∈ ms, m.1 ≠ .punctuation → beginsOther m.2.toList = true) :
    Nested ms := by
  induction ms with
  | nil => exact .nil
  | cons m ms ih =>
    obtain ⟨hm, hms⟩ := List.forall_mem_cons.mp h
    obtain ⟨hshape', hshapes⟩ := List.forall_mem_cons.mp hshape
    obtain ⟨hopen, hclose⟩ := not_bracket_of_plain hm hshape'
    exact .leaf hopen hclose (ih hms hshapes)

/-- A clause is plain lexemes, and then perhaps something in curly brackets. -/
def IsClause (ms : List Lexeme) : Prop := ∃ plain group, ms = plain ++ group ∧ (∀ m ∈ plain, IsPlain m) ∧ (group = [] ∨ Group .curly group)

theorem isClause_of_plain (h : ∀ m ∈ ms, IsPlain m) : IsClause ms := ⟨ms, [], (List.append_nil ms).symm, h, Or.inl rfl⟩

theorem plain_star (x : String) : ∀ m ∈ [mark "*", word "as", word x], IsPlain m :=
  List.forall_mem_cons.mpr ⟨Or.inr (by decide), List.forall_mem_cons.mpr ⟨isPlain_word "as", List.forall_mem_singleton.mpr (isPlain_word x)⟩⟩

theorem isClause_of_import (h : ImportClause ms) (hshape : ∀ m ∈ ms, m.1 ≠ .punctuation → beginsOther m.2.toList = true) : IsClause ms := by
  have hgroup {ms : List Lexeme} (h : Names ms) (hshape : ∀ m ∈ inCurly ms, m.1 ≠ .punctuation → beginsOther m.2.toList = true) :
      Group .curly (inCurly ms) :=
    .intro (nested_of_plain (plain_of_names h) fun m hm => hshape m (List.mem_cons_of_mem _ (List.mem_append_left _ hm)))
  cases h with
  | default x => exact isClause_of_plain (List.forall_mem_singleton.mpr (isPlain_word x))
  | star x => exact isClause_of_plain (plain_star x)
  | names h => exact ⟨[], _, rfl, nofun, Or.inr (hgroup h hshape)⟩
  | defaultAndNames x h =>
    refine ⟨[word x, mark ","], _, rfl, ?_, Or.inr (hgroup h fun m hm => hshape m (List.mem_append_right [word x, mark ","] hm))⟩
    exact List.forall_mem_cons.mpr ⟨isPlain_word x, List.forall_mem_singleton.mpr (Or.inr (by decide))⟩

/-- What an import introduces has no string and no equals sign. -/
theorem copied_of_import (h : ImportClause ms) (hshape : ∀ m ∈ ms, m.1 ≠ .punctuation → beginsOther m.2.toList = true) :
    ∀ m ∈ ms, m.1 ≠ .string ∧ m.2 ≠ "=" := by
  have hcurly {ms : List Lexeme} (h : Names ms) : ∀ m ∈ inCurly ms, IsPlain m ∨ m ∈ [mark "\x7b", mark "\x7d"] := by
    intro m hm
    rcases List.mem_cons.mp hm with rfl | hm
    · exact Or.inr (by decide)
    rcases List.mem_append.mp hm with hm | hm
    · exact Or.inl (plain_of_names h m hm)
    · exact Or.inr (List.mem_cons_of_mem _ hm)
  have hall : ∀ m ∈ ms, IsPlain m ∨ m ∈ [mark "\x7b", mark "\x7d"] := by
    cases h with
    | default x => exact List.forall_mem_singleton.mpr (Or.inl (isPlain_word x))
    | star x => exact fun m hm => Or.inl (plain_star x m hm)
    | names h => exact hcurly h
    | defaultAndNames x h =>
      exact List.forall_mem_cons.mpr ⟨Or.inl (isPlain_word x), List.forall_mem_cons.mpr ⟨Or.inl (Or.inr (by decide)), hcurly h⟩⟩
  have hmarks : ∀ m ∈ [mark "*", mark ",", mark "\x7b", mark "\x7d"], m.1 ≠ .string ∧ m.2 ≠ "=" := by decide
  intro m hm
  rcases hall m hm with (hword | hmark) | hmark
  · have hkind : m.1 ≠ .punctuation := by rw [hword]; decide
    exact ⟨by rw [hword]; decide, ne_of_beginsOther (hshape m hm hkind) (by decide)⟩
  · exact hmarks m (List.mem_append_left [mark "\x7b", mark "\x7d"] hmark)
  · exact hmarks m (List.mem_append_right [mark "*", mark ","] hmark)

theorem isClause_of_export (h : ExportClause ms) : IsClause ms := by
  cases h with
  | names h => exact ⟨[], ms, rfl, nofun, Or.inr h⟩
  | star => exact isClause_of_plain (List.forall_mem_singleton.mpr (Or.inr (by decide)))
  | starAs x => exact isClause_of_plain (plain_star x)

end Clauses

/-! ## Skipping -/

section Skipping

variable {depth : Int} {t : Token} {ts mid rest : List Token} {ms : List Lexeme}

theorem skipModule_cons (hopen : t.text ≠ "\x7b") (hclose : t.text ≠ "\x7d")
    (hend : depth = 0 → t.kind ≠ .string ∧ t.text ≠ ";") :
    (skipModuleStatement depth (t :: ts)).tokens = (skipModuleStatement depth ts).tokens := by
  have hstop : (depth = 0 && t.kind = .string) = false ∧ (depth = 0 && t.text = ";") = false := by
    by_cases hdepth : depth = 0
    · simp [hend hdepth]
    · simp [hdepth]
  simp only [skipModuleStatement, if_neg hopen, if_neg hclose, hstop, Bool.false_eq_true, if_false]
  rfl

theorem skipModule_opener (ht : t.text = "\x7b") :
    (skipModuleStatement depth (t :: ts)).tokens = (skipModuleStatement (depth + 1) ts).tokens := by
  simp only [skipModuleStatement, if_pos ht]
  rfl

theorem skipModule_closer (ht : t.text = "\x7d") (hgo : depth - 1 ≠ 0 ∨ headIn (significant ts) ["from"] = true) :
    (skipModuleStatement depth (t :: ts)).tokens = (skipModuleStatement (depth - 1) ts).tokens := by
  have hgo' : (depth - 1 = 0 && !headIn (significant ts) ["from"]) = false := by
    rcases hgo with hdepth | hfrom
    · simp [hdepth]
    · simp [hfrom]
  simp only [skipModuleStatement, ht, String.reduceEq, if_false, if_true, hgo', Bool.false_eq_true]
  rfl

/-- Behind the last curly bracket the declaration ends, if no module name follows. -/
theorem skipModule_last (ht : t.text = "\x7d") (hfrom : headIn (significant ts) ["from"] = false) :
    (skipModuleStatement 1 (t :: ts)).tokens = (skipSemicolon ts).tokens := by
  simp only [skipModuleStatement, ht, hfrom, String.reduceEq, if_false, if_true]
  rfl

/-- The declaration ends behind its module name. -/
theorem skipModule_string (hkind : t.kind = .string) (hshape : t.Shaped) :
    (skipModuleStatement 0 (t :: ts)).tokens = (skipSemicolon ts).tokens := by
  have hne := fun {s : String} => text_ne_of_kind (t := t) (m := s) hshape (by rw [hkind]; decide)
  have hopen : t.text ≠ "\x7b" := hne (by decide)
  have hclose : t.text ≠ "\x7d" := hne (by decide)
  simp only [skipModuleStatement, if_neg hopen, if_neg hclose, hkind, decide_true, Bool.and_self, if_true]
  rfl

theorem skipModule_of_trivia {blanks : List Token} (hblanks : ∀ b ∈ blanks, b.isTrivia = true ∧ b.Shaped) (ts : List Token) :
    (skipModuleStatement depth (blanks ++ ts)).tokens = (skipModuleStatement depth ts).tokens := by
  induction blanks with
  | nil => rfl
  | cons b blanks ih =>
    obtain ⟨⟨hb, hshape⟩, hblanks⟩ := List.forall_mem_cons.mp hblanks
    have hne := fun {s : String} => ne_of_beginsOther (m := s) (hshape.beginsOther_of_trivia hb)
    have hkind : b.kind ≠ .string := fun hk => by rw [Token.isTrivia, hk] at hb; exact Bool.false_ne_true hb
    exact (skipModule_cons (hne (by decide)) (hne (by decide)) fun _ => ⟨hkind, hne (by decide)⟩).trans (ih hblanks)

/-- Plain lexemes are passed over. -/
theorem skipModule_of_plain (h : ∀ m ∈ ms, IsPlain m) (hw : Written (ms.map typed) ts mid) :
    (skipModuleStatement depth ts).tokens = (skipModuleStatement depth mid).tokens := by
  induction ms generalizing ts with
  | nil =>
    obtain rfl := Written.nil_iff.mp hw
    rfl
  | cons m ms ih =>
    obtain ⟨hm, hms⟩ := List.forall_mem_cons.mp h
    obtain ⟨blanks, t, us, rfl, hblanks, _, _, hshape, ht, hrest⟩ := hw.uncons
    have hlexeme : t.lexeme = m := ht
    rw [skipModule_of_trivia hblanks]
    refine Eq.trans ?_ (ih hms hrest)
    rcases hm with hword | hmark
    · have hkind : t.kind = .identifier := (congrArg Prod.fst hlexeme).trans hword
      have hne := fun {s : String} => text_ne_of_kind (t := t) (m := s) hshape (by rw [hkind]; decide)
      exact skipModule_cons (hne (by decide)) (hne (by decide)) fun _ => ⟨by rw [hkind]; decide, hne (by decide)⟩
    · have hall : ∀ m ∈ [mark "*", mark ","], m.2 ≠ "\x7b" ∧ m.2 ≠ "\x7d" ∧ m.1 ≠ .string ∧ m.2 ≠ ";" := by decide
      obtain ⟨hopen, hclose, hend⟩ := hall m hmark
      rw [← hlexeme] at hopen hclose hend
      exact skipModule_cons hopen hclose fun _ => hend

/-- Inside curly brackets what is nested is passed over. -/
theorem skipModule_of_nested (h : Nested ms) {depth : Int} (hdepth : 0 < depth) (hw : Written (ms.map typed) ts mid) :
    (skipModuleStatement depth ts).tokens = (skipModuleStatement depth mid).tokens := by
  induction h generalizing depth ts mid with
  | nil =>
    obtain rfl := Written.nil_iff.mp hw
    rfl
  | @leaf m ms hopen hclose h ih =>
    obtain ⟨blanks, t, us, rfl, hblanks, _, _, _, ht, hrest⟩ := hw.uncons
    have htext : t.text = m.2 := congrArg Prod.snd ht
    rw [skipModule_of_trivia hblanks]
    refine (skipModule_cons ?_ ?_ fun hzero => absurd hzero (by omega)).trans (ih hdepth hrest)
    · rw [htext]
      exact ne_opener_of (b := .curly) (by rw [hopen]; nofun)
    · rw [htext]
      exact ne_closer_of (b := .curly) (by rw [hclose]; nofun)
  | group b hinner h ihinner ih =>
    rw [List.map_append, List.map_cons, List.map_cons] at hw
    obtain ⟨after, hfirst, hsecond⟩ := hw.split
    obtain ⟨blanks, t, us, rfl, hblanks, _, _, _, ht, hopened⟩ := hfirst.uncons
    obtain ⟨_, htext⟩ := lexeme_eq_mark ht
    obtain ⟨blanks', t', us', rfl, hblanks', _, _, _, ht', hclosed⟩ := hsecond.uncons
    obtain ⟨_, htext'⟩ := lexeme_eq_mark ht'
    rw [skipModule_of_trivia hblanks]
    by_cases hb : b = .curly
    · subst hb
      rw [skipModule_opener htext, ihinner (by omega) hopened, skipModule_of_trivia hblanks',
        skipModule_closer htext' (Or.inl (by omega)), Int.add_sub_cancel]
      exact ih hdepth hclosed
    · have hother : ∀ b : Bracket, b ≠ .curly → b.opener ≠ "\x7b" ∧ b.opener ≠ "\x7d" ∧ b.closer ≠ "\x7b" ∧ b.closer ≠ "\x7d" := by
        intro b hb
        cases b <;> first | exact absurd rfl hb | decide
      obtain ⟨h₁, h₂, h₃, h₄⟩ := hother b hb
      rw [skipModule_cons (htext ▸ h₁) (htext ▸ h₂) fun hzero => absurd hzero (by omega), ihinner hdepth hopened,
        skipModule_of_trivia hblanks', skipModule_cons (htext' ▸ h₃) (htext' ▸ h₄) fun hzero => absurd hzero (by omega)]
      exact ih hdepth hclosed

/-- What stands in curly brackets is passed over if a module name follows. Otherwise the declaration ends behind them. -/
theorem skipModule_of_group (h : Group .curly ms) (hw : Written (ms.map typed) ts mid) :
    (skipModuleStatement 0 ts).tokens =
      if headIn (significant mid) ["from"] = true then (skipModuleStatement 0 mid).tokens else (skipSemicolon mid).tokens := by
  obtain ⟨hinner⟩ := h
  rw [List.map_append, List.map_cons] at hw
  obtain ⟨after, hfirst, hlast⟩ := hw.split
  obtain ⟨blanks, t, us, rfl, hblanks, _, _, _, ht, hinside⟩ := hfirst.uncons
  obtain ⟨blanks', t', us', rfl, hblanks', _, _, _, ht', hrest⟩ := hlast.uncons
  obtain rfl := Written.nil_iff.mp hrest
  have htext : t.text = "\x7b" := (lexeme_eq_mark ht).2
  have htext' : t'.text = "\x7d" := (lexeme_eq_mark ht').2
  rw [skipModule_of_trivia hblanks, skipModule_opener htext, skipModule_of_nested hinner (by decide) hinside,
    skipModule_of_trivia hblanks']
  cases hfrom : headIn (significant us') ["from"] with
  | true => exact skipModule_closer htext' (Or.inr hfrom)
  | false => exact skipModule_last htext' hfrom

/-- A declaration of types is skipped up to and with its module name, and a semicolon behind that. -/
theorem skipModule_of_from {m : Lexeme} (h : IsClause ms) (hm : m.1 = .string)
    (hw : Written ((word "type" :: (ms ++ [word "from", m])).map typed) ts rest) :
    (skipModuleStatement 0 ts).tokens = (skipSemicolon rest).tokens := by
  obtain ⟨plain, group, rfl, hplain, hgroup⟩ := h
  have hsplit : (word "type" :: (plain ++ group ++ [word "from", m])).map typed =
      (word "type" :: plain).map typed ++ (group.map typed ++ [word "from", m].map typed) := by simp
  rw [hsplit] at hw
  obtain ⟨us, hfirst, hw⟩ := hw.split
  obtain ⟨vs, hgroupw, hlast⟩ := hw.split
  -- the module name
  have hend : (skipModuleStatement 0 vs).tokens = (skipSemicolon rest).tokens := by
    have hparts : Written ([word "from"].map typed ++ [m].map typed) vs rest := hlast
    obtain ⟨ws, hfrom, hname⟩ := hparts.split
    obtain ⟨blanks, t, us', rfl, hblanks, _, _, hshape, ht, hrest⟩ := hname.uncons
    obtain rfl := Written.nil_iff.mp hrest
    have hkind : t.kind = .string := (congrArg Prod.fst ht).trans hm
    rw [skipModule_of_plain (List.forall_mem_singleton.mpr (isPlain_word "from")) hfrom, skipModule_of_trivia hblanks,
      skipModule_string hkind hshape]
  rw [skipModule_of_plain (List.forall_mem_cons.mpr ⟨isPlain_word "type", hplain⟩) hfirst]
  rcases hgroup with rfl | hgroup
  · obtain rfl := Written.nil_iff.mp hgroupw
    exact hend
  · have hfrom : headIn (significant vs) ["from"] = true := headIn_of_written hlast ["from"]
    rw [skipModule_of_group hgroup hgroupw, if_pos hfrom]
    exact hend

/-- A semicolon is skipped if one stands there. -/
theorem skipSemicolon_of_ending {us : List Token} (hus : Ending us) (hrest : headIn (significant rest) [";"] = false) :
    (skipSemicolon (us ++ rest)).tokens = rest := by
  rcases hus with rfl | ⟨t, rfl, ht⟩
  · have hmark : headIn (Rest.whole ([] ++ rest)).significant.tokens [";"] = false := hrest
    simp only [skipSemicolon, hmark, Bool.false_eq_true, if_false]
    rfl
  · obtain ⟨hkind, htext⟩ := lexeme_eq_mark ht
    have hsignificant : significant ([t] ++ rest) = t :: rest := significant_cons_of_not (by rw [Token.isTrivia, hkind]; rfl) rest
    have hmark : headIn (Rest.whole ([t] ++ rest)).significant.tokens [";"] = true := by
      show headIn (significant ([t] ++ rest)) [";"] = true
      rw [hsignificant, headIn, htext]
      rfl
    simp only [skipSemicolon, hmark, if_true]
    show (significant ([t] ++ rest)).tail = rest
    rw [hsignificant, List.tail_cons]

end Skipping

/-! ## Copying -/

namespace Eraser

section Copying

variable {e : Eraser} {t : Token} {ts mid rest : List Token} {ms : List Lexeme}

/-- An import is copied up to and with the first string. -/
theorem copyImport_of_string {us : List Token} {s : Token} (hus : ∀ u ∈ us, u.kind ≠ .string ∧ u.text ≠ "=") (hs : s.kind = .string)
    (hshape : s.Shaped) (rest : List Token) :
    ∃ e', copyImport e (us ++ s :: rest) = .ok e' ∧ e'.1.rest = rest ∧ e'.1.kept = (us ++ [s]).reverse ++ e.kept ∧
      e'.1.frame = e.frame ∧ e'.1.specifiers = ⟨unquoted s.text, s.position.line⟩ :: e.specifiers := by
  induction us generalizing e with
  | nil =>
    have hne : s.text ≠ "=" := text_ne_of_string hshape hs (by decide)
    let kept := keep e s rest
    refine ⟨⟨kept.1.note (unquoted s.text) s.position.line, Nat.le_of_lt kept.2⟩, ?_, rfl, rfl, rfl, rfl⟩
    show copyImport e (s :: rest) = _
    rw [copyImport, if_neg hne]
    exact if_pos hs
  | cons u us ih =>
    obtain ⟨⟨hkind, hne⟩, hus⟩ := List.forall_mem_cons.mp hus
    obtain ⟨e', hcopy, hrest, hkept, hframe, hspecifiers⟩ := ih (e := (keep e u (us ++ s :: rest)).1) hus
    refine ⟨⟨e'.1, Nat.le_trans e'.2 (Nat.le_add_left _ _)⟩, ?_, hrest, ?_, hframe, hspecifiers⟩
    · show copyImport e (u :: (us ++ s :: rest)) = _
      rw [copyImport, if_neg hne]
      simp only [if_neg hkind, hcopy]
    · rw [hkept, List.cons_append, List.reverse_cons, List.append_assoc]
      rfl

theorem kept_keepTo {ds : List Token} (r : Tail ts) (h : ts = ds ++ r.tokens) : (keepTo e r).1.kept = ds.reverse ++ e.kept := by
  have htaken : ts.take (ts.length - r.tokens.length) = ds := List.append_cancel_right ((taken_append r).trans h)
  show (ts.take (ts.length - r.tokens.length)).reverse ++ e.kept = _
  rw [htaken]

theorem skipExportClause_of_clause (h : ExportClause ms) (hw : Written (ms.map typed) ts mid)
    (has : headIn (significant mid) ["as"] = false) : Leaves (skipExportClause ts) mid := by
  have hstart : (Rest.whole ts).significant.tokens = significant ts := rfl
  cases h with
  | names h =>
    obtain ⟨hskip, t, us, hsignificant, ht⟩ := skipBracket_of_group h hw
    have hopen : headIn (Rest.whole ts).significant.tokens ["\x7b"] = true := by
      rw [hstart, hsignificant, headIn, (lexeme_eq_mark ht).2]
      rfl
    simp only [skipExportClause, hopen, if_true]
    obtain ⟨r, hr, rfl⟩ := hskip
    have hr' : skipBracket .curly (Rest.whole ts).significant.tokens = .ok r := hr
    rw [hr']
    exact ⟨_, rfl, rfl⟩
  | star =>
    obtain ⟨t, us, hsignificant, _, _, ht, hrest⟩ := Written.significant hw
    obtain rfl := Written.nil_iff.mp hrest
    have hopen : headIn (Rest.whole ts).significant.tokens ["\x7b"] = false := by
      rw [hstart, hsignificant, headIn, (lexeme_eq_mark ht).2]
      rfl
    have htail : (Rest.whole ts).significant.tail.tokens = us := by
      show (significant ts).tail = us
      rw [hsignificant, List.tail_cons]
    have has' : headIn (Rest.whole ts).significant.tail.significant.tokens ["as"] = false := by
      show headIn (significant (Rest.whole ts).significant.tail.tokens) ["as"] = false
      rw [htail]
      exact has
    simp only [skipExportClause, hopen, has', Bool.false_eq_true, if_false]
    exact ⟨_, rfl, htail⟩
  | starAs x =>
    obtain ⟨t, us, hsignificant, _, _, ht, hrest⟩ := Written.significant hw
    obtain ⟨t', us', hsignificant', _, _, ht', hrest'⟩ := Written.significant hrest
    obtain ⟨t'', us'', hsignificant'', _, _, _, hrest''⟩ := Written.significant hrest'
    obtain rfl := Written.nil_iff.mp hrest''
    have hopen : headIn (Rest.whole ts).significant.tokens ["\x7b"] = false := by
      rw [hstart, hsignificant, headIn, (lexeme_eq_mark ht).2]
      rfl
    have htail : (Rest.whole ts).significant.tail.significant.tokens = t' :: us' := by
      show significant (significant ts).tail = t' :: us'
      rw [hsignificant, List.tail_cons, hsignificant']
    have has' : headIn (Rest.whole ts).significant.tail.significant.tokens ["as"] = true := by
      rw [htail, headIn, (lexeme_eq_word ht').2]
      rfl
    simp only [skipExportClause, hopen, has', Bool.false_eq_true, if_false, if_true]
    refine ⟨_, rfl, ?_⟩
    show (significant (Rest.whole ts).significant.tail.significant.tokens.tail).tail = us''
    rw [htail, List.tail_cons, hsignificant'', List.tail_cons]

/-- An export without a module name is kept up to the end of its clause. -/
theorem copyExport_of_local (h : ExportClause ms) (hw : Written (ms.map typed) ts mid) (has : headIn (significant mid) ["as"] = false)
    (hfrom : headIn (significant mid) ["from"] = false) :
    ∃ r : Tail (t :: ts), r.tokens = mid ∧ copyExport e t ts = .ok (keepTo e r) := by
  obtain ⟨r, hr, rfl⟩ := skipExportClause_of_clause h hw has
  have hfrom' : headIn r.significant.tokens ["from"] = false := hfrom
  refine ⟨r.afterHead, rfl, ?_⟩
  simp only [copyExport, hr, hfrom', Bool.false_and, Bool.false_eq_true, if_false]
  split <;> rfl

/-- An export with a module name is kept up to and with that, and the name is noted. -/
theorem copyExport_of_from {m : Lexeme} (h : ExportClause ms) (hm : m.1 = .string)
    (hw : Written ((ms ++ [word "from", m]).map typed) ts rest) :
    ∃ s : Token, s.kind = .string ∧ s :: rest <:+ ts ∧ ∃ r : Tail (t :: ts), r.tokens = rest ∧
      copyExport e t ts = .ok (keepTo (e.note (unquoted s.text) s.position.line) r) := by
  rw [List.map_append] at hw
  obtain ⟨mid, hclause, hlast⟩ := hw.split
  obtain ⟨f, us, hword, _, _, hf, hname⟩ := Written.significant hlast
  obtain ⟨s, vs, hmodule, _, _, hs, hrest⟩ := Written.significant hname
  obtain rfl := Written.nil_iff.mp hrest
  have hkind : s.kind = .string := (congrArg Prod.fst hs).trans hm
  obtain ⟨r, hr, rfl⟩ := skipExportClause_of_clause h hclause (headIn_of_written hlast ["as"])
  have hfrom : headIn r.significant.tokens ["from"] = true := headIn_of_written hlast ["from"]
  have hus : significant r.significant.tail.tokens = s :: vs := by
    show significant (significant r.tokens).tail = s :: vs
    rw [hword, List.tail_cons, hmodule]
  have htokens : r.significant.tail.significant.tokens = s :: vs := hus
  refine ⟨s, hkind, htokens ▸ r.significant.tail.significant.suffix, ?_⟩
  simp only [copyExport, hr]
  split
  · rename_i s' vs' hcons
    obtain ⟨rfl, rfl⟩ := List.cons.inj (htokens.symm.trans hcons)
    simp only [hfrom, hkind, decide_true, Bool.and_self, if_true]
    exact ⟨_, rfl, rfl⟩
  · rename_i hnil
    rw [htokens] at hnil
    nomatch hnil

/-! ## What kind of import -/

/-- An import of types is told by the word `type`. -/
theorem importsType_of_typeOnly {others : List Lexeme} (h : ImportClause ms) (hbound : ms.head? ≠ some (word "from"))
    (hw : Written ((word "type" :: (ms ++ others)).map typed) ts rest) : importsType ts = true := by
  obtain ⟨t, us, hsignificant, _, _, _, hclause⟩ := Written.significant hw
  have hfirst : headIn (t :: us) ["type"] = true := hsignificant ▸ headIn_of_written hw ["type"]
  have hname {x : String} {ss : List Sym} (hclause : Written (typedWord x :: ss) us rest) (hx : some (word x) ≠ some (word "from")) :
      (headIsName (significant us) && !headIn (significant us) ["from"]) = true := by
    have hne : x ≠ "from" := fun heq => hx (heq ▸ rfl)
    rw [headIsName_of_written hclause, headIn_of_written hclause]
    simp [typedWord, typed, hne]
  unfold importsType
  simp only [hsignificant, hfirst, List.tail_cons, Bool.true_and]
  cases h with
  | default x => rw [hname hclause hbound, Bool.or_true]
  | star x => rw [headIn_of_written hclause]; rfl
  | names h => rw [headIn_of_written hclause]; rfl
  | defaultAndNames x h => rw [hname hclause hbound, Bool.or_true]

theorem importsType_of_names {others : List Lexeme} (h : Group .curly ms)
    (hw : Written ((word "type" :: (ms ++ others)).map typed) ts rest) : importsType ts = true := by
  obtain ⟨h⟩ := h
  obtain ⟨t, us, hsignificant, _, _, _, hclause⟩ := Written.significant hw
  have hfirst : headIn (t :: us) ["type"] = true := hsignificant ▸ headIn_of_written hw ["type"]
  have hcurly : headIn (significant us) ["\x7b", "*"] = true := headIn_of_written hclause ["\x7b", "*"]
  unfold importsType
  simp only [hsignificant, hfirst, hcurly, List.tail_cons, Bool.true_and, Bool.true_or]

/-- An import of values is not, even if its default is called `type`. -/
theorem importsType_of_value {m : Lexeme} (h : ImportClause ms) (hw : Written ((ms ++ [word "from", m]).map typed) ts rest) :
    importsType ts = false := by
  have hfirst : headIn (significant ts) ["type"] = false → importsType ts = false := by
    intro hfirst
    unfold importsType
    simp only [hfirst, Bool.false_and]
  cases h with
  | default x =>
    obtain ⟨t, us, hsignificant, _, _, _, hfrom⟩ := Written.significant hw
    unfold importsType
    simp only [hsignificant, List.tail_cons]
    rw [headIn_of_written hfrom, headIsName_of_written hfrom, headIn_of_written hfrom]
    exact Bool.and_false _
  | star x => exact hfirst (headIn_of_written hw _)
  | names h => exact hfirst (headIn_of_written hw _)
  | defaultAndNames x h =>
    obtain ⟨t, us, hsignificant, _, _, _, hcomma⟩ := Written.significant hw
    unfold importsType
    simp only [hsignificant, List.tail_cons]
    rw [headIn_of_written hcomma, headIsName_of_written hcomma]
    exact Bool.and_false _

end Copying

end Eraser

end ScriptLoader.Syntax
