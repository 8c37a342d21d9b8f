import ScriptLoader.Proofs.Eraser.ModuleDeclaration
import ScriptLoader.Proofs.Eraser.Verbatim

/-!
# Sequences of imports and exports

A source of imports and exports, each on a line of its own, with comments around them (`Declarations`). The eraser finds each of them,
though those before it may have left nothing: it keeps the imports and exports of values, skips those of types alone, and notes the
modules that the former and the reference comments name (`erase_declarations`).
-/

namespace ScriptLoader.Syntax

/-! ## Sources of declarations -/

/-- A declaration with the semicolon behind it, if it has one; with the tokens that are to be kept, and the module to be noted. -/
inductive Declaration : (ds values : List Token) → Option Specifier → Prop where
  | value {ds us : List Token} {ms : List Lexeme} (hms : ValueDeclaration ms) (hds : Compact ds ms) (hus : Ending us) :
      Declaration (ds ++ us) (meaning (ds ++ us)) (specifier? ds)
  | typeOnly {ds us : List Token} {ms : List Lexeme} (hms : TypeOnlyDeclaration ms) (hds : Compact ds ms) (hus : Ending us) :
      Declaration (ds ++ us) [] none

/-- Declarations with blanks and comments around them; each but the first of a source begins on a new line. -/
inductive Declarations : (first : Bool) → (ts values : List Token) → List Specifier → Prop where
  | nil {first : Bool} {gap : List Token} (hgap : ∀ b ∈ gap, b.isTrivia = true) :
      Declarations first gap [] (gap.filterMap reference?)
  | cons {first : Bool} {gap ds ts values others : List Token} {specifier : Option Specifier} {specifiers : List Specifier}
      (hgap : ∀ b ∈ gap, b.isTrivia = true) (hline : first = false → ∃ b ∈ gap, b.breaksLine = true)
      (hds : Declaration ds values specifier) (h : Declarations false ts others specifiers) :
      Declarations first (gap ++ (ds ++ ts)) (values ++ others) (gap.filterMap reference? ++ (specifier.toList ++ specifiers))

namespace Eraser

/-! ## The state of the walk -/

/-- The walk gets on to `rest`, keeps `kept` and notes `specifiers`. -/
structure Gets (e e' : Eraser) (rest kept : List Token) (specifiers : List Specifier) : Prop where
  run : Reaches e e'
  rest : e'.rest = rest
  kept : e'.kept = kept.reverse ++ e.kept
  bracket : e'.frame.bracket = e.frame.bracket
  specifiers : e'.specifiers = specifiers.reverse ++ e.specifiers

theorem Gets.trans {e e₁ e₂ : Eraser} {rest rest' kept kept' : List Token} {specifiers specifiers' : List Specifier}
    (h : Gets e e₁ rest kept specifiers) (h' : Gets e₁ e₂ rest' kept' specifiers') :
    Gets e e₂ rest' (kept ++ kept') (specifiers ++ specifiers') where
  run := h.run.trans h'.run
  rest := h'.rest
  kept := by rw [h'.kept, h.kept, List.reverse_append, List.append_assoc]
  bracket := h'.bracket.trans h.bracket
  specifiers := by rw [h'.specifiers, h.specifiers, List.reverse_append, List.append_assoc]

/-- The token kept last, trivia aside, is no point. -/
def Calm (e : Eraser) : Prop := ∀ t ∈ (significant e.kept).head?, t.text ≠ "." ∧ t.text ≠ "?."

/-- A declaration may begin here. -/
structure Begins (e : Eraser) : Prop where
  start : e.atStatementStart = true
  calm : Calm e

/-- What follows a declaration is a semicolon, another declaration or nothing. -/
def Follows (rest : List Token) : Prop := ∀ t ∈ (significant rest).head?, t.text ∈ [";", "import", "export"]

section Steps

variable {e : Eraser} {t : Token} {ts rest : List Token}

theorem Calm.previousText (h : Calm e) : e.previousText ≠ some "." ∧ e.previousText ≠ some "?." := by
  unfold Eraser.previousText keptMeaning headText
  cases hkept : significant e.kept with
  | nil => exact ⟨nofun, nofun⟩
  | cons t ts =>
    rw [Calm, hkept] at h
    obtain ⟨h₁, h₂⟩ := h t rfl
    exact ⟨fun heq => h₁ (Option.some.inj heq), fun heq => h₂ (Option.some.inj heq)⟩

theorem Follows.headIn_eq_false (h : Follows rest) {s : String} (hs : s ∉ [";", "import", "export"]) :
    headIn (significant rest) [s] = false := by
  cases hrest : significant rest with
  | nil => rfl
  | cons t ts =>
    rw [Follows, hrest] at h
    rw [headIn, Bool.eq_false_iff, Ne, List.contains_iff_mem, List.mem_singleton]
    rintro rfl
    exact hs (h t rfl)

theorem significant_semicolon (ht : t.lexeme = mark ";") (ts : List Token) : significant (t :: ts) = t :: ts :=
  significant_cons_of_not (by rw [Token.isTrivia, (lexeme_eq_mark ht).1]; rfl) ts

theorem Follows.ending {us : List Token} (h : Follows rest) (hus : Ending us) : Follows (us ++ rest) := by
  rcases hus with rfl | ⟨t, rfl, ht⟩
  · exact h
  · intro u hu
    rw [List.singleton_append, significant_semicolon ht] at hu
    rw [← Option.some.inj hu, (lexeme_eq_mark ht).2]
    decide

/-- Blanks and comments are kept. -/
theorem gets_gap {gap : List Token} (hgap : ∀ b ∈ gap, b.isTrivia = true) (hrest : e.rest = gap ++ rest) :
    ∃ e', Gets e e' rest gap (gap.filterMap reference?) := by
  induction gap generalizing e with
  | nil => exact ⟨e, .refl e, hrest, rfl, rfl, rfl⟩
  | cons b gap ih =>
    obtain ⟨hb, hgap⟩ := List.forall_mem_cons.mp hgap
    have hstep : step e b (gap ++ rest) = .ok (keep { e with specifiers := (reference? b).toList ++ e.specifiers } b (gap ++ rest)) := by
      rw [step, if_pos hb, onTrivia_eq]
    have hone : Gets e _ (gap ++ rest) [b] (reference? b).toList :=
      ⟨.single (.intro hrest hstep), rfl, rfl, rfl, by cases reference? b <;> rfl⟩
    obtain ⟨e', hmore⟩ := ih hgap hone.rest
    refine ⟨e', ?_⟩
    have hall := hone.trans hmore
    cases hreference : reference? b with
    | none =>
      rw [List.filterMap_cons_none hreference]
      rwa [hreference] at hall
    | some r =>
      rw [List.filterMap_cons_some hreference]
      rwa [hreference] at hall

/-- A semicolon is kept. -/
theorem gets_semicolon (ht : t.lexeme = mark ";") (hrest : e.rest = t :: rest) : ∃ e', Gets e e' rest [t] [] := by
  obtain ⟨hkind, htext⟩ := lexeme_eq_mark ht
  have hstep : step e t rest = .ok (keep { e with frame := { e.frame with declaring := false } } t rest) := by
    rw [step_of_other hkind (by rw [htext]; decide), onMark, htext]
    rfl
  exact ⟨_, .single (.intro hrest hstep), rfl, rfl, rfl, rfl⟩

/-- Where a statement may begin, a word that begins one is read so. -/
theorem step_of_begins (hbegins : Begins e) (hkind : t.kind = .identifier) (hthis : t.text ≠ "this") {e' : Next (t :: ts)}
    (h : onStatement e t ts = .ok (some e')) : step e t ts = .ok e' := by
  obtain ⟨hpoint, hpoint'⟩ := hbegins.calm.previousText
  rw [step_of_identifier hkind, onIdentifier, decide_eq_false hpoint, decide_eq_false hpoint', decide_eq_false hthis, h]
  simp only [Bool.or_self, Bool.false_and, Bool.false_eq_true, if_false, hbegins.start, if_true]

theorem onStatement_import (htext : t.text = "import") (hcall : headIn (significant ts) ["(", "."] = false) :
    onStatement e t ts =
      if importsType ts then .ok (some (skipTo e (skipModuleStatement 0 ts).afterHead))
      else (copyImport (keep e t ts).1 ts).map fun e' => some ⟨e'.1, Nat.lt_of_le_of_lt e'.2 (by simp [t.width_pos])⟩ := by
  unfold onStatement
  simp only [htext, hcall, String.reduceEq, decide_false, decide_true, Bool.false_and, Bool.or_self, Bool.false_eq_true, if_false,
    Bool.not_false, Bool.and_self, if_true]

theorem onStatement_export (htext : t.text = "export") :
    onStatement e t ts =
      if headIn (significant ts) ["type"] && headIn (significant (significant ts).tail) ["\x7b", "*"] then
        .ok (some (skipTo e (skipModuleStatement 0 ts).afterHead))
      else if headIn (significant ts) ["\x7b", "*"] then (copyExport e t ts).map some
      else .ok none := by
  unfold onStatement
  simp only [htext, String.reduceEq, decide_false, decide_true, Bool.false_and, Bool.or_self, Bool.false_eq_true, if_false,
    Bool.true_and]

end Steps

/-! ## One declaration -/

section Declarations

variable {e : Eraser} {ds rest : List Token} {ms : List Lexeme}

theorem specifier?_append {us : List Token} {s : Token} (hs : s.kind = .string) :
    specifier? (us ++ [s]) = some ⟨unquoted s.text, s.position.line⟩ := by
  rw [specifier?, List.getLast?_concat, Option.filter_some, if_pos (by rw [hs]; rfl)]
  rfl

/-- An import is copied up to and with its module name, which is noted. -/
theorem gets_import {m : Lexeme} (hds : Compact ds (word "import" :: (ms ++ [m]))) (hshape : ∀ t ∈ ds, t.Shaped)
    (hms : ∀ l ∈ ms, l.1 ≠ .string ∧ l.2 ≠ "=") (hm : m.1 = .string) (hrest : e.rest = ds ++ rest) (hbegins : Begins e)
    (hread : ∀ ts, Written ((ms ++ [m]).map typed) ts rest → headIn (significant ts) ["(", "."] = false ∧ importsType ts = false) :
    ∃ e', Gets e e' rest ds (specifier? ds).toList := by
  obtain ⟨t, us, rfl, ht, hlexeme, hw⟩ := hds.written_tail hshape rest
  obtain ⟨hkind, htext⟩ := lexeme_eq_word hlexeme
  obtain ⟨hcall, hvalue⟩ := hread _ hw
  -- the tokens between the first and the last one
  obtain ⟨_, hus⟩ := List.forall_mem_cons.mp hshape
  obtain ⟨vs, s, rfl, hs, hvs⟩ : ∃ vs s, us = vs ++ [s] ∧ s.lexeme = m ∧ lexemes vs = ms := by
    have hends : Compact (t :: us) ((word "import" :: ms) ++ [m]) := hds
    obtain ⟨ws, s, heq, _, hs, hws⟩ := hends.unsnoc
    cases ws with
    | nil => nomatch hws
    | cons w ws =>
      obtain ⟨rfl, rfl⟩ := List.cons.inj heq
      rw [lexemes_cons_of_not ht] at hws
      exact ⟨ws, s, rfl, hs, (List.cons.inj hws).2⟩
  have hstring : s.kind = .string := (congrArg Prod.fst hs).trans hm
  have hcopied : ∀ u ∈ vs, u.kind ≠ .string ∧ u.text ≠ "=" := by
    intro u hu
    have hshaped := hus u (List.mem_append_left _ hu)
    cases htrivia : u.isTrivia with
    | true =>
      refine ⟨fun hk => ?_, ne_of_beginsOther (hshaped.beginsOther_of_trivia htrivia) (by decide)⟩
      rw [Token.isTrivia, hk] at htrivia
      exact absurd htrivia Bool.false_ne_true
    | false =>
      have hmem : u ∈ meaning vs := List.mem_filter.mpr ⟨hu, by rw [htrivia]; rfl⟩
      exact hms u.lexeme (hvs ▸ List.mem_map_of_mem hmem)
  obtain ⟨e', hcopy, hleft, hkept, hframe, hspecifiers⟩ :=
    copyImport_of_string (e := (keep e t (vs ++ s :: rest)).1) hcopied hstring (hus s List.mem_concat_self) rest
  have hsplit : vs ++ [s] ++ rest = vs ++ s :: rest := by rw [List.append_assoc, List.singleton_append]
  rw [hsplit] at hcall hvalue
  have hrest' : e.rest = t :: (vs ++ s :: rest) := by rw [hrest, List.cons_append, hsplit]
  have hstatement : onStatement e t (vs ++ s :: rest) = .ok (some ⟨e'.1, Nat.lt_of_le_of_lt e'.2 (by simp [t.width_pos])⟩) := by
    rw [onStatement_import htext hcall, hvalue, if_neg (by decide), hcopy]
    rfl
  refine ⟨e'.1, .single (.intro hrest' (step_of_begins hbegins hkind (by rw [htext]; decide) hstatement)), hleft, ?_, ?_, ?_⟩
  · rw [hkept, List.reverse_cons, List.append_assoc]
    rfl
  · rw [hframe]
    rfl
  · rw [← List.cons_append, specifier?_append hstring, hspecifiers]
    rfl

/-- What is exported begins with a curly bracket or a star. -/
theorem headIn_of_exportClause (h : ExportClause ms) {others : List Lexeme} {us : List Token}
    (hw : Written ((ms ++ others).map typed) us rest) :
    headIn (significant us) ["\x7b", "*"] = true ∧ headIn (significant us) ["type"] = false := by
  cases h with
  | names h =>
    obtain ⟨h⟩ := h
    exact ⟨headIn_of_written hw _, headIn_of_written hw _⟩
  | star => exact ⟨headIn_of_written hw _, headIn_of_written hw _⟩
  | starAs x => exact ⟨headIn_of_written hw _, headIn_of_written hw _⟩

/-- A clause that is exported ends in a word, in a star or in a curly bracket. -/
theorem last_of_exportClause (h : ExportClause ms) :
    ∃ init last, ms = init ++ [last] ∧ (last.1 = .identifier ∨ last ∈ [mark "*", mark "\x7d"]) := by
  cases h with
  | names h =>
    obtain ⟨h⟩ := h
    exact ⟨_, _, rfl, Or.inr (by decide)⟩
  | star => exact ⟨[], _, rfl, Or.inr (by decide)⟩
  | starAs x => exact ⟨[mark "*", word "as"], _, rfl, Or.inl rfl⟩

/-- An export of values is kept as a whole, and its module noted, if it names one. -/
theorem gets_export (hms : ExportClause ms) {others : List Lexeme} (hds : Compact ds (word "export" :: (ms ++ others)))
    (hothers : others = [] ∨ ∃ m : Lexeme, m.1 = .string ∧ others = [word "from", m]) (hshape : ∀ t ∈ ds, t.Shaped)
    (hrest : e.rest = ds ++ rest) (hbegins : Begins e) (hfollows : Follows rest) :
    ∃ e', Gets e e' rest ds (specifier? ds).toList := by
  obtain ⟨t, us, rfl, ht, hlexeme, hw⟩ := hds.written_tail hshape rest
  obtain ⟨hkind, htext⟩ := lexeme_eq_word hlexeme
  obtain ⟨hclause, htype⟩ := headIn_of_exportClause hms hw
  have hstatement : onStatement e t (us ++ rest) = (copyExport e t (us ++ rest)).map some := by
    rw [onStatement_export htext, htype, hclause]
    rfl
  have hstep {e₁ : Eraser} {r : Tail (t :: (us ++ rest))} (hcopy : copyExport e t (us ++ rest) = .ok (keepTo e₁ r)) :
      Steps e (keepTo e₁ r).1 := by
    refine .intro hrest (step_of_begins hbegins hkind (by rw [htext]; decide) ?_)
    rw [hstatement, hcopy]
    rfl
  rcases hothers with rfl | ⟨m, hm, rfl⟩
  · obtain ⟨init, last, rfl, hlast⟩ := last_of_exportClause hms
    rw [List.append_nil] at hw hds
    obtain ⟨r, hr, hcopy⟩ := copyExport_of_local (e := e) (t := t) hms hw (hfollows.headIn_eq_false (by decide))
      (hfollows.headIn_eq_false (by decide))
    refine ⟨_, .single (hstep hcopy), hr, kept_keepTo r (by rw [hr]; rfl), rfl, ?_⟩
    have hends : Compact (t :: us) ((word "export" :: init) ++ [last]) := hds
    obtain ⟨vs, s, heq, _, hs, _⟩ := hends.unsnoc
    have hstring : s.kind ≠ .string := by
      have hsk : s.kind = last.1 := congrArg Prod.fst hs
      rw [hsk]
      rcases hlast with hlast | hlast
      · rw [hlast]
        decide
      · have hall : ∀ m ∈ [mark "*", mark "\x7d"], m.1 ≠ .string := by decide
        exact hall last hlast
    have hnone : specifier? (t :: us) = none := by
      rw [heq, specifier?, List.getLast?_concat, Option.filter_some, if_neg (by simpa using hstring)]
      rfl
    rw [hnone]
    rfl
  · obtain ⟨s, hstring, ⟨pre, hpre⟩, r, hr, hcopy⟩ := copyExport_of_from (e := e) (t := t) hms hm hw
    have hus : us = pre ++ [s] := by
      have hsame : us ++ rest = pre ++ [s] ++ rest := by rw [← hpre, List.append_assoc, List.singleton_append]
      exact List.append_cancel_right hsame
    have hnoted : specifier? (t :: us) = some ⟨unquoted s.text, s.position.line⟩ := by
      rw [hus, ← List.cons_append, specifier?_append hstring]
    refine ⟨_, .single (hstep hcopy), hr, kept_keepTo r (by rw [hr]; rfl), rfl, ?_⟩
    rw [hnoted]
    rfl

/-- An import or an export of values is kept as a whole. -/
theorem gets_value (hms : ValueDeclaration ms) (hds : Compact ds ms) (hshape : ∀ t ∈ ds, t.Shaped) (hrest : e.rest = ds ++ rest)
    (hbegins : Begins e) (hfollows : Follows rest) : ∃ e', Gets e e' rest ds (specifier? ds).toList := by
  have hshapes := shaped_of_written (hds.written hshape rest)
  cases hms with
  | @importModule m hm =>
    have hends : Compact ds (word "import" :: ([] ++ [m])) := hds
    refine gets_import hends hshape nofun hm hrest hbegins fun ts hw => ?_
    obtain ⟨s, us, hsignificant, _, hshaped, hs, _⟩ := Written.significant hw
    have hkind : s.kind = .string := (congrArg Prod.fst hs).trans hm
    have hne {w : String} (hw : w.toList.head?.all (fun c => c != '\x22' && c != '\x27') = true) : s.text ≠ w :=
      text_ne_of_string hshaped hkind hw
    refine ⟨?_, ?_⟩
    · rw [hsignificant, headIn]
      simp [hne (w := "(") (by decide), hne (w := ".") (by decide)]
    · have hfirst : headIn (significant ts) ["type"] = false := by
        rw [hsignificant, headIn]
        simp [hne (w := "type") (by decide)]
      unfold importsType
      simp only [hfirst, Bool.false_and]
  | @importFrom c m h hm =>
    have hends : Compact ds (word "import" :: ((c ++ [word "from"]) ++ [m])) := by
      rw [List.append_assoc]
      exact hds
    have hclause (l : Lexeme) (hl : l ∈ c) : l ∈ word "import" :: (c ++ [word "from", m]) :=
      List.mem_cons_of_mem _ (List.mem_append_left _ hl)
    refine gets_import hends hshape (fun l hl => ?_) hm hrest hbegins fun ts hw => ?_
    · rcases List.mem_append.mp hl with hl | hl
      · exact copied_of_import h (fun l hl => hshapes l (hclause l hl)) l hl
      · rw [List.mem_singleton.mp hl]
        decide
    · rw [List.append_assoc] at hw
      refine ⟨?_, importsType_of_value h hw⟩
      have hword : TokenKind.identifier ≠ .punctuation := by decide
      cases h with
      | default x => exact headIn_of_word hw hword (by decide)
      | star x => exact headIn_of_written hw _
      | names h => exact headIn_of_written hw _
      | defaultAndNames x h => exact headIn_of_word hw hword (by decide)
  | exportLocal h => exact gets_export h (by rw [List.append_nil]; exact hds) (Or.inl rfl) hshape hrest hbegins hfollows
  | exportFrom h hm => exact gets_export h hds (Or.inr ⟨_, hm, rfl⟩) hshape hrest hbegins hfollows

/-- A declaration that is skipped as a whole. -/
theorem gets_skipped {t : Token} {ts : List Token} (hbegins : Begins e) (hlexeme : t.lexeme = word "import" ∨ t.lexeme = word "export")
    (hrest : e.rest = t :: ts) (hstatement : onStatement e t ts = .ok (some (skipTo e (skipModuleStatement 0 ts).afterHead)))
    (hskip : (skipModuleStatement 0 ts).tokens = rest) : ∃ e', Gets e e' rest [] [] := by
  have hword : t.kind = .identifier ∧ t.text ≠ "this" := by
    rcases hlexeme with hlexeme | hlexeme
    · exact ⟨(lexeme_eq_word hlexeme).1, by rw [(lexeme_eq_word hlexeme).2]; decide⟩
    · exact ⟨(lexeme_eq_word hlexeme).1, by rw [(lexeme_eq_word hlexeme).2]; decide⟩
  exact ⟨_, .single (.intro hrest (step_of_begins hbegins hword.1 hword.2 hstatement)), hskip, rfl, rfl, rfl⟩

/-- The word `type` and a clause behind `export`. -/
theorem onStatement_exportType {t : Token} {ts : List Token} (htext : t.text = "export") {others : List Lexeme} (hms : ExportClause ms)
    (hw : Written ((word "type" :: (ms ++ others)).map typed) ts rest) :
    onStatement e t ts = .ok (some (skipTo e (skipModuleStatement 0 ts).afterHead)) := by
  have hword : headIn (significant ts) ["type"] = true := headIn_of_written hw _
  obtain ⟨u, us, hsignificant, _, _, _, hclause⟩ := Written.significant hw
  have hbegin : headIn (significant (significant ts).tail) ["\x7b", "*"] = true := by
    rw [hsignificant, List.tail_cons]
    exact (headIn_of_exportClause hms hclause).1
  rw [onStatement_export htext, hword, hbegin]
  rfl

/-- An import or an export of types alone is skipped with the semicolon behind it. -/
theorem gets_typeOnly (hms : TypeOnlyDeclaration ms) (hds : Compact ds ms) (hshape : ∀ t ∈ ds, t.Shaped) {us : List Token} (hus : Ending us)
    (hrest : e.rest = ds ++ (us ++ rest)) (hbegins : Begins e) (hfollows : Follows (us ++ rest))
    (hnext : headIn (significant rest) [";"] = false) : ∃ e', Gets e e' rest [] [] := by
  have hsemicolon := skipSemicolon_of_ending hus hnext
  have hshapes := shaped_of_written (hds.written hshape rest)
  have himport {c : List Lexeme} {m : Lexeme} (hds : Compact ds (word "import" :: word "type" :: (c ++ [word "from", m])))
      (hm : m.1 = .string) (hc : IsClause c)
      (htype : ∀ ts, Written ((word "type" :: (c ++ [word "from", m])).map typed) ts (us ++ rest) → importsType ts = true) :
      ∃ e', Gets e e' rest [] [] := by
    obtain ⟨t, vs, rfl, _, hlexeme, hw⟩ := hds.written_tail hshape (us ++ rest)
    have hstatement : onStatement e t (vs ++ (us ++ rest)) = .ok (some (skipTo e (skipModuleStatement 0 _).afterHead)) := by
      rw [onStatement_import (lexeme_eq_word hlexeme).2 (headIn_of_written hw _), htype _ hw]
      rfl
    exact gets_skipped hbegins (Or.inl hlexeme) hrest hstatement ((skipModule_of_from hc hm hw).trans hsemicolon)
  cases hms with
  | @importFrom c m h hbound hm =>
    have hclause (l : Lexeme) (hl : l ∈ c) : l ∈ word "import" :: word "type" :: (c ++ [word "from", m]) :=
      List.mem_cons_of_mem _ (List.mem_cons_of_mem _ (List.mem_append_left _ hl))
    exact himport hds hm (isClause_of_import h fun l hl => hshapes l (hclause l hl)) fun ts => importsType_of_typeOnly h hbound
  | importNames h hm => exact himport hds hm (isClause_of_export (.names h)) fun ts => importsType_of_names h
  | @exportLocal c h =>
    obtain ⟨t, vs, rfl, _, hlexeme, hw⟩ := hds.written_tail hshape (us ++ rest)
    have hclause : Written ((word "type" :: (c ++ [])).map typed) (vs ++ (us ++ rest)) (us ++ rest) := by
      rw [List.append_nil]
      exact hw
    have hstatement : onStatement e t (vs ++ (us ++ rest)) = .ok (some (skipTo e (skipModuleStatement 0 _).afterHead)) :=
      onStatement_exportType (lexeme_eq_word hlexeme).2 (.names h) hclause
    have hparts : Written ([word "type"].map typed ++ c.map typed) (vs ++ (us ++ rest)) (us ++ rest) := hw
    obtain ⟨mid, hword, hgroup⟩ := hparts.split
    have hskip : (skipModuleStatement 0 (vs ++ (us ++ rest))).tokens = (skipSemicolon (us ++ rest)).tokens := by
      rw [skipModule_of_plain (List.forall_mem_singleton.mpr (isPlain_word "type")) hword, skipModule_of_group h hgroup,
        hfollows.headIn_eq_false (by decide), if_neg (by decide)]
    exact gets_skipped hbegins (Or.inr hlexeme) hrest hstatement (hskip.trans hsemicolon)
  | @exportFrom c m h hm =>
    obtain ⟨t, vs, rfl, _, hlexeme, hw⟩ := hds.written_tail hshape (us ++ rest)
    have hstatement : onStatement e t (vs ++ (us ++ rest)) = .ok (some (skipTo e (skipModuleStatement 0 _).afterHead)) :=
      onStatement_exportType (lexeme_eq_word hlexeme).2 h hw
    have hskip := skipModule_of_from (isClause_of_export h) hm hw
    exact gets_skipped hbegins (Or.inr hlexeme) hrest hstatement (hskip.trans hsemicolon)

/-- Behind a declaration that was kept no point was kept last. -/
theorem calm_of_value (hms : ValueDeclaration ms) (hds : Compact ds ms) (hshape : ∀ t ∈ ds, t.Shaped) {kept : List Token}
    (hkept : e.kept = ds.reverse ++ kept) : Calm e := by
  obtain ⟨init, last, rfl, hlast⟩ : ∃ init last, ms = init ++ [last] ∧ (last.1 ≠ .punctuation ∨ last ∈ [mark "*", mark "\x7d"]) := by
    have hclause {c : List Lexeme} (h : ExportClause c) :
        ∃ init last, word "export" :: c = init ++ [last] ∧ (last.1 ≠ .punctuation ∨ last ∈ [mark "*", mark "\x7d"]) := by
      obtain ⟨init, last, rfl, hlast⟩ := last_of_exportClause h
      exact ⟨word "export" :: init, last, rfl, hlast.imp_left fun hk => by rw [hk]; decide⟩
    cases hms with
    | @importModule m hm => exact ⟨[word "import"], m, rfl, Or.inl (by rw [hm]; decide)⟩
    | @importFrom c m h hm =>
      exact ⟨word "import" :: (c ++ [word "from"]), m, by simp, Or.inl (by rw [hm]; decide)⟩
    | exportLocal h => exact hclause h
    | @exportFrom c m h hm => exact ⟨word "export" :: (c ++ [word "from"]), m, by simp, Or.inl (by rw [hm]; decide)⟩
  obtain ⟨us, s, rfl, hs, hlexeme, _⟩ := hds.unsnoc
  intro t ht
  rw [hkept, List.reverse_append, List.reverse_singleton, List.singleton_append, List.cons_append, significant_cons_of_not hs] at ht
  obtain rfl := Option.some.inj ht
  rcases hlast with hkind | hmark
  · have hshaped : s.Shaped := hshape s List.mem_concat_self
    have hne := fun {w : String} => text_ne_of_kind (t := s) (m := w) hshaped (by rw [show s.kind = last.1 from congrArg Prod.fst hlexeme]; exact hkind)
    exact ⟨hne (by decide), hne (by decide)⟩
  · have hall : ∀ m ∈ [mark "*", mark "\x7d"], m.2 ≠ "." ∧ m.2 ≠ "?." := by decide
    rw [show s.text = last.2 from congrArg Prod.snd hlexeme]
    exact hall last hmark

/-- A declaration is kept or skipped as a whole. -/
theorem gets_declaration {values : List Token} {specifier : Option Specifier} (h : Declaration ds values specifier)
    (hshape : ∀ t ∈ ds, t.Shaped) (hrest : e.rest = ds ++ rest) (hbegins : Begins e) (hfollows : Follows rest)
    (hnext : headIn (significant rest) [";"] = false) :
    ∃ e' kept, Gets e e' rest kept specifier.toList ∧ meaning kept = values ∧ Calm e' := by
  cases h with
  | @value ds us ms hms hds hus =>
    have hshape' (t : Token) (ht : t ∈ ds) : t.Shaped := hshape t (List.mem_append_left _ ht)
    rw [List.append_assoc] at hrest
    rcases hus with rfl | ⟨t, rfl, ht⟩
    · obtain ⟨e', hgets⟩ := gets_value hms hds hshape' hrest hbegins hfollows
      exact ⟨e', ds, hgets, by rw [List.append_nil], calm_of_value hms hds hshape' hgets.kept⟩
    · obtain ⟨e₁, hgets₁⟩ := gets_value hms hds hshape' hrest hbegins (hfollows.ending (Or.inr ⟨t, rfl, ht⟩))
      obtain ⟨e₂, hgets₂⟩ := gets_semicolon ht hgets₁.rest
      refine ⟨e₂, ds ++ [t], ?_, rfl, ?_⟩
      · have hall := hgets₁.trans hgets₂
        rwa [List.append_nil] at hall
      · intro u hu
        rw [hgets₂.kept, List.reverse_singleton, List.singleton_append, significant_semicolon ht] at hu
        rw [← Option.some.inj hu, (lexeme_eq_mark ht).2]
        decide
  | @typeOnly ds us ms hms hds hus =>
    rw [List.append_assoc] at hrest
    have hshape' (t : Token) (ht : t ∈ ds) : t.Shaped := hshape t (List.mem_append_left _ ht)
    obtain ⟨e', hgets⟩ := gets_typeOnly hms hds hshape' hus hrest hbegins (hfollows.ending hus) hnext
    refine ⟨e', [], hgets, rfl, ?_⟩
    have hkept : e'.kept = e.kept := hgets.kept
    rw [Calm, hkept]
    exact hbegins.calm

end Declarations

/-! ## Sequences -/

/-- What follows a declaration begins another one, or says nothing. -/
theorem head_of_declarations {first : Bool} {ts values : List Token} {specifiers : List Specifier}
    (h : Declarations first ts values specifiers) : ∀ t ∈ (significant ts).head?, t.text ∈ ["import", "export"] := by
  cases h with
  | nil hgap =>
    rw [significant, List.dropWhile_eq_nil_iff.mpr hgap]
    exact fun t ht => absurd ht.symm (Option.some_ne_none t)
  | @cons _ gap ds ts _ _ _ _ hgap hline hds h =>
    obtain ⟨m, ms, vs, us, rfl, hcompact, hm⟩ : ∃ m ms vs us, ds = vs ++ us ∧ Compact vs (m :: ms) ∧ m.2 ∈ ["import", "export"] := by
      cases hds with
      | value hms hds hus => cases hms <;> exact ⟨_, _, _, _, rfl, hds, by decide⟩
      | typeOnly hms hds hus => cases hms <;> exact ⟨_, _, _, _, rfl, hds, by decide⟩
    obtain ⟨t, vs', rfl, ht, hlexeme, _⟩ := hcompact.uncons
    rw [significant_append_of_trivia hgap, List.cons_append, List.cons_append, significant_cons_of_not ht]
    intro u hu
    rw [← Option.some.inj hu, show t.text = m.2 from congrArg Prod.snd hlexeme]
    exact hm

/-- Behind a line break, or at the beginning of the source, a declaration may begin. -/
theorem begins_of_gap {e e' : Eraser} {rest gap : List Token} {specifiers : List Specifier} (h : Gets e e' rest gap specifiers)
    (hgap : ∀ b ∈ gap, b.isTrivia = true) (hcalm : Calm e) (hline : e.kept = [] ∨ ∃ b ∈ gap, b.breaksLine = true) : Begins e' := by
  have hgap' : ∀ b ∈ gap.reverse, b.isTrivia = true := fun b hb => hgap b (List.mem_reverse.mp hb)
  have hsignificant : significant e'.kept = significant e.kept := by rw [h.kept, significant_append_of_trivia hgap']
  refine ⟨?_, ?_⟩
  · unfold atStatementStart
    split
    · rfl
    · rename_i s hs
      rcases hline with hnil | ⟨b, hb, hbreak⟩
      · rw [previousText, keptMeaning, hsignificant, hnil] at hs
        exact absurd hs.symm (Option.some_ne_none s)
      · have hbroke : e'.brokeLine = true := by
          rw [brokeLine, h.kept, List.takeWhile_append_of_pos hgap', List.any_append, Bool.or_eq_true]
          exact Or.inl (List.any_eq_true.mpr ⟨b, List.mem_reverse.mpr hb, hbreak⟩)
        rw [hbroke, Bool.or_true]
  · rw [Calm, hsignificant]
    exact hcalm

/-- The walk keeps the declarations of values, and notes their modules and those of reference comments. -/
theorem gets_declarations {first : Bool} {ts values : List Token} {specifiers : List Specifier}
    (h : Declarations first ts values specifiers) {e : Eraser} (hshape : ∀ t ∈ ts, t.Shaped) (hrest : e.rest = ts) (hcalm : Calm e)
    (hfirst : first = true → e.kept = []) : ∃ e' kept, Gets e e' [] kept specifiers ∧ meaning kept = values := by
  induction h generalizing e with
  | @nil first gap hgap =>
    obtain ⟨e', hgets⟩ := gets_gap hgap (hrest.trans (List.append_nil gap).symm)
    exact ⟨e', gap, hgets, meaning_of_trivia hgap⟩
  | @cons first gap ds ts values others specifier specifiers hgap hline hds h ih =>
    obtain ⟨hshape', hshape⟩ : (∀ t ∈ ds, t.Shaped) ∧ ∀ t ∈ ts, t.Shaped := by
      rw [List.forall_mem_append, List.forall_mem_append] at hshape
      exact hshape.2
    obtain ⟨e₁, hgets₁⟩ := gets_gap hgap hrest
    have hbegins : Begins e₁ := by
      refine begins_of_gap hgets₁ hgap hcalm ?_
      cases first with
      | true => exact Or.inl (hfirst rfl)
      | false => exact Or.inr (hline rfl)
    have hnext := head_of_declarations h
    have hfollows : Follows ts := fun t ht => List.mem_cons_of_mem _ (hnext t ht)
    have hsemicolon : headIn (significant ts) [";"] = false := by
      cases hts : significant ts with
      | nil => rfl
      | cons t us =>
        rw [hts] at hnext
        rw [headIn, Bool.eq_false_iff, Ne, List.contains_iff_mem, List.mem_singleton]
        intro ht
        exact absurd (ht ▸ hnext t rfl) (by decide)
    obtain ⟨e₂, kept₂, hgets₂, hkept₂, hcalm₂⟩ := gets_declaration hds hshape' hgets₁.rest hbegins hfollows hsemicolon
    obtain ⟨e₃, kept₃, hgets₃, hkept₃⟩ := ih hshape hgets₂.rest hcalm₂ fun heq => absurd heq Bool.false_ne_true
    refine ⟨e₃, gap ++ (kept₂ ++ kept₃), hgets₁.trans (hgets₂.trans hgets₃), ?_⟩
    rw [meaning_append, meaning_append, meaning_of_trivia hgap, hkept₂, hkept₃, List.nil_append]

end Eraser

/-- A source of imports and exports is erased without a refusal. The tokens kept, trivia aside, are those of the declarations of values,
and the modules noted are those that these name and those that reference comments name, in the order of the source. -/
theorem erase_declarations {content : String} {ts values : List Token} {specifiers : List Specifier}
    (hlex : tokenize content.toList 0 .first = .ok ts) (h : Declarations true ts values specifiers) :
    ∃ e, Eraser.walk (.start ts) = .ok e ∧ erase content = .ok ⟨e.output, specifiers⟩ ∧ meaning e.kept.reverse = values := by
  have hshape := shaped_of_lexFrom (lexFrom_of_tokenize hlex)
  obtain ⟨e, kept, hgets, hkept⟩ := Eraser.gets_declarations (e := .start ts) h hshape rfl nofun fun _ => rfl
  have hwalk : Eraser.walk (.start ts) = .ok e := by
    rw [hgets.run.walk_eq, Eraser.walk_of_nil hgets.rest, Eraser.finish, hgets.bracket]
    rfl
  have hspecifiers : e.specifiers = specifiers.reverse := hgets.specifiers.trans (List.append_nil _)
  refine ⟨e, hwalk, ?_, ?_⟩
  · rw [erase, hlex]
    simp only [hwalk, Except.map, hspecifiers, List.reverse_reverse]
  · have hall : e.kept = kept.reverse := hgets.kept.trans (List.append_nil _)
    rw [hall, List.reverse_reverse, hkept]

/-- An import of types leaves nothing, and the export behind it is found all the same. -/
theorem erase_declarations_export :
    ∃ ts values, tokenize "import type A from \x22m\x22;\n/// <reference path=\x22x\x22 />\nexport * from \x22n\x22".toList 0 .first = .ok ts ∧
      Declarations true ts values [⟨"./x", 2⟩, ⟨"n", 3⟩] ∧
      ∃ e, Eraser.walk (.start ts) = .ok e ∧
        erase "import type A from \x22m\x22;\n/// <reference path=\x22x\x22 />\nexport * from \x22n\x22" =
          .ok ⟨e.output, [⟨"./x", 2⟩, ⟨"n", 3⟩]⟩ ∧ meaning e.kept.reverse = values := by
  obtain ⟨ds, hds⟩ : ∃ ds : List Token, ds =
      [⟨.identifier, "import", 0, ⟨1, 1⟩⟩, ⟨.blank, " ", 6, ⟨1, 7⟩⟩, ⟨.identifier, "type", 7, ⟨1, 8⟩⟩, ⟨.blank, " ", 11, ⟨1, 12⟩⟩,
       ⟨.identifier, "A", 12, ⟨1, 13⟩⟩, ⟨.blank, " ", 13, ⟨1, 14⟩⟩, ⟨.identifier, "from", 14, ⟨1, 15⟩⟩, ⟨.blank, " ", 18, ⟨1, 19⟩⟩,
       ⟨.string, "\x22m\x22", 19, ⟨1, 20⟩⟩] := ⟨_, rfl⟩
  obtain ⟨gap, hgap⟩ : ∃ gap : List Token, gap =
      [⟨.blank, "\n", 23, ⟨1, 24⟩⟩, ⟨.lineComment, "/// <reference path=\x22x\x22 />", 24, ⟨2, 1⟩⟩, ⟨.blank, "\n", 50, ⟨2, 27⟩⟩] := ⟨_, rfl⟩
  obtain ⟨us, hus⟩ : ∃ us : List Token, us =
      [⟨.identifier, "export", 51, ⟨3, 1⟩⟩, ⟨.blank, " ", 57, ⟨3, 7⟩⟩, ⟨.punctuation, "*", 58, ⟨3, 8⟩⟩, ⟨.blank, " ", 59, ⟨3, 9⟩⟩,
       ⟨.identifier, "from", 60, ⟨3, 10⟩⟩, ⟨.blank, " ", 64, ⟨3, 14⟩⟩, ⟨.string, "\x22n\x22", 65, ⟨3, 15⟩⟩] := ⟨_, rfl⟩
  obtain ⟨semicolon, hsemicolon⟩ : ∃ t : Token, t = ⟨.punctuation, ";", 22, ⟨1, 23⟩⟩ := ⟨_, rfl⟩
  have hlex : tokenize "import type A from \x22m\x22;\n/// <reference path=\x22x\x22 />\nexport * from \x22n\x22".toList 0 .first =
      .ok ([] ++ (ds ++ [semicolon] ++ (gap ++ (us ++ [] ++ [])))) := by
    rw [hds, hgap, hus, hsemicolon]
    cbv
  have himport : Declaration (ds ++ [semicolon]) [] none := by
    refine .typeOnly (.importFrom (m := (.string, "\x22m\x22")) (.default "A") (by decide) rfl) ⟨?_, ?_, ?_⟩ (Or.inr ⟨semicolon, rfl, ?_⟩)
    · rw [hds]
      rfl
    · rw [hds]
      decide
    · rw [hds]
      decide
    · rw [hsemicolon]
      rfl
  have hexport : Declaration (us ++ []) (meaning (us ++ [])) (some ⟨"n", 3⟩) := by
    have hspecifier : specifier? us = some ⟨"n", 3⟩ := by
      rw [hus]
      rfl
    rw [← hspecifier]
    refine .value (.exportFrom (m := (.string, "\x22n\x22")) .star rfl) ⟨?_, ?_, ?_⟩ (Or.inl rfl)
    · rw [hus]
      rfl
    · rw [hus]
      decide
    · rw [hus]
      decide
  have hreferences : gap.filterMap reference? = [⟨"./x", 2⟩] := by
    rw [hgap]
    rfl
  have htrivia : ∀ b ∈ gap, b.isTrivia = true := by
    rw [hgap]
    decide
  have hline : ∃ b ∈ gap, b.breaksLine = true := by
    rw [hgap]
    decide
  have hnone : ∀ b ∈ ([] : List Token), b.isTrivia = true := List.forall_mem_nil _
  have hlast : Declarations false (gap ++ (us ++ [] ++ [])) _ (gap.filterMap reference? ++ [⟨"n", 3⟩]) :=
    .cons htrivia (fun _ => hline) hexport (.nil hnone)
  rw [hreferences] at hlast
  have hfirst : true = false → ∃ b ∈ ([] : List Token), b.breaksLine = true := fun heq => absurd heq.symm Bool.false_ne_true
  have hall : Declarations true ([] ++ (ds ++ [semicolon] ++ (gap ++ (us ++ [] ++ [])))) _ [⟨"./x", 2⟩, ⟨"n", 3⟩] :=
    .cons hnone hfirst himport hlast
  exact ⟨_, _, hlex, hall, erase_declarations hlex hall⟩

end ScriptLoader.Syntax
