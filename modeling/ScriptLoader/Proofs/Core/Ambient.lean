import Mathlib
import ScriptLoader.Proofs.Core.Erasure
import ScriptLoader.Proofs.Core.SkipStatement
import ScriptLoader.Proofs.Core.TypeBrackets

/-!
# Ambient declarations

`declare` and a declaration of variables, of a function or of a class that has no value. The eraser drops such a declaration as a
statement, without reading its types, so it drops all of it exactly where nothing outside round and square brackets reads like the end of
a statement too early: no curly bracket and no line break before the semicolon or the body (`ambient_dropped_iff`). A core program with
such declarations among its statements is erased to the code of the statements (`erase_ambient`).
-/

namespace ScriptLoader.Syntax

open Eraser

/-! ## Declarations -/

/-- Names with their types, and commas between them. -/
inductive Bindings : List Lexeme → Prop where
  | one {bare greedy : Bool} {x : String} {ms : List Lexeme} (h : TypeText .whole bare greedy ms) :
      Bindings (word x :: mark ":" :: ms)
  | more {bare greedy : Bool} {x : String} {ms others : List Lexeme} (h : TypeText .whole bare greedy ms) (hothers : Bindings others) :
      Bindings (word x :: mark ":" :: (ms ++ mark "," :: others))

/-- The type parameters of a class, and what it extends and implements. -/
inductive Heritage : List Lexeme → Prop where
  | nil : Heritage []
  | word {x : String} {ms : List Lexeme} (h : Heritage ms) : Heritage (word x :: ms)
  | mark {s : String} {ms : List Lexeme} (hs : s ∈ [".", ","]) (h : Heritage ms) : Heritage (mark s :: ms)
  | arguments {arguments ms : List Lexeme} (harguments : TypeArguments arguments) (h : Heritage ms) : Heritage (arguments ++ ms)

/-- What stands behind `declare`, before a semicolon or a body. -/
inductive AmbientHeader : (last : Lexeme) → List Lexeme → Prop where
  | bindings {w : String} {ms : List Lexeme} (hw : w ∈ declarationWords) (h : Bindings ms) : AmbientHeader (mark ";") (word w :: ms)
  | function {bare greedy : Bool} {x : String} {arguments parameters result : List Lexeme}
      (harguments : arguments = [] ∨ TypeArguments arguments) (hparameters : Group .round parameters)
      (hresult : TypeText .whole bare greedy result) :
      AmbientHeader (mark ";") (word "function" :: word x :: (arguments ++ (parameters ++ mark ":" :: result)))
  | class {x : String} {heritage : List Lexeme} (h : Heritage heritage) :
      AmbientHeader (mark "\x7b") (word "class" :: word x :: heritage)

/-- The tokens behind `declare` are an ambient declaration, and then `rest`: a header, and from `last` on a semicolon or a body. -/
structure Ambient (front : List Token) (last : Token) (behind rest : List Token) : Prop where
  shaped : ∀ t ∈ front, t.Shaped
  header : AmbientHeader last.lexeme (lexemes front)
  ending : (last.lexeme = mark ";" ∧ behind = rest) ∨
    ∃ body, Group .curly body ∧ last.isTrivia = false ∧ Written (body.map typed) (last :: behind) rest

theorem neutral_of_bindings {ms : List Lexeme} (h : Bindings ms) : Neutral ms := by
  induction h with
  | one h => exact .word (.other (by decide) (neutral_of_text h))
  | more h hothers ih => exact .word (.other (by decide) ((neutral_of_text h).append (.other (by decide) ih)))

theorem neutral_of_heritage {ms : List Lexeme} (h : Heritage ms) : Neutral ms := by
  induction h with
  | nil => exact .nil
  | word h ih => exact .word ih
  | mark hs h ih =>
    rcases List.mem_cons.mp hs with rfl | hs
    · exact .other (by decide) ih
    · rw [List.mem_singleton.mp hs]
      exact .other (by decide) ih
  | arguments harguments h ih => exact (neutral_of_arguments harguments).append ih

theorem neutral_of_header {last : Lexeme} {ms : List Lexeme} (h : AmbientHeader last ms) : Neutral ms := by
  cases h with
  | bindings hw h => exact .word (neutral_of_bindings h)
  | function harguments hparameters hresult =>
    refine .word (.word (.append ?_ ((neutral_of_group hparameters).append (.other (by decide) (neutral_of_text hresult)))))
    rcases harguments with rfl | harguments
    · exact .nil
    · exact neutral_of_arguments harguments
  | «class» h => exact .word (.word (neutral_of_heritage h))

section Ambient

variable {front behind rest : List Token} {last : Token}

theorem exists_word_of_header {m : Lexeme} {ms : List Lexeme} (h : AmbientHeader m ms) : ∃ w ms', ms = word w :: ms' := by
  cases h with
  | bindings => exact ⟨_, _, rfl⟩
  | function => exact ⟨_, _, rfl⟩
  | «class» => exact ⟨_, _, rfl⟩

/-! ## Skipping -/

/-- The semicolon, or the body, is skipped. -/
theorem Ambient.leaves (h : Ambient front last behind rest) : Leaves (skipStatement 0 (last :: behind)) rest := by
  rcases h.ending with ⟨hlast, rfl⟩ | ⟨body, hbody, htrivia, hw⟩
  · obtain ⟨_, htext⟩ := lexeme_eq_mark hlast
    rw [skipStatement, if_pos (by simp [htext])]
    exact ⟨_, rfl, rfl⟩
  · obtain ⟨hskip, t, us, hsignificant, ht⟩ := skipBracket_of_group hbody hw
    rw [significant_cons_of_not htrivia] at hskip hsignificant
    obtain ⟨rfl, rfl⟩ := List.cons.inj hsignificant
    have htext : last.text = "\x7b" := (lexeme_eq_mark ht).2
    rw [skipStatement, if_neg (by simp [htext]), if_pos (by simp [htext])]
    exact hskip.toRest

/-- What follows the declaration is a proper end of what follows its header. -/
theorem Ambient.suffix (h : Ambient front last behind rest) : rest <:+ behind := by
  rcases h.ending with ⟨_, rfl⟩ | ⟨body, hbody, htrivia, hw⟩
  · exact List.suffix_refl _
  · obtain ⟨hinner⟩ := hbody
    rcases List.suffix_cons_iff.mp hw.suffix with rfl | hsuffix
    · exact absurd hw.length_lt (Nat.lt_irrefl _)
    · exact hsuffix

/-- Skipping the declaration as a statement takes nothing of what follows it, and it takes all of the declaration if and only if the header
is unbroken. -/
theorem skipStatement_of_ambient (h : Ambient front last behind rest) :
    ∃ r, skipStatement 0 (front ++ last :: behind) = .ok r ∧ rest <:+ r.tokens ∧ (r.tokens = rest ↔ Unbroken front) := by
  have hbehind : Bracket.behind [] front = some [] := behind_of_neutral h.shaped (neutral_of_header h.header) []
  by_cases hunbroken : Unbroken front
  · have hskip := skipStatement_append hunbroken (last :: behind)
    have hbalance : held [] = held [] + balance front := balance_of_behind hbehind
    rw [show (0 : Int) + balance front = 0 from hbalance.symm, leaves_iff.mp h.leaves] at hskip
    obtain ⟨r, hr, rfl⟩ := leaves_iff.mpr hskip
    exact ⟨r, hr, List.suffix_refl _, fun _ => hunbroken, fun _ => rfl⟩
  · have hends : ∃ t ∈ outside (held []) front, endsStatement t = true := by
      rw [show held [] = 0 from rfl]
      simpa [Unbroken] using hunbroken
    obtain ⟨mid, ⟨r, hr, rfl⟩, hmid⟩ := skipStatement_within hbehind hends (last :: behind)
    refine ⟨r, hr, (h.suffix.trans (List.suffix_cons last behind)).trans hmid, fun heq => ?_, fun hyes => absurd hyes hunbroken⟩
    have hlong := hmid.length_le
    have hshort := h.suffix.length_le
    rw [heq, List.length_cons] at hlong
    omega

/-! ## The step -/

theorem step_of_ambient {e : Eraser} {t : Token} {us : List Token} (h : e.BeginsStatement) (ht : t.lexeme = word "declare")
    (hnext : headIsName (significant us) = true) :
    step e t us = (skipStatement 0 us).map fun r => skipTo e.retractExport r.afterHead := by
  obtain ⟨hkind, htext⟩ := lexeme_eq_word ht
  refine step_of_statement h hkind (htext ▸ by decide) ?_
  unfold onStatement
  simp only [htext, hnext, String.reduceEq, decide_false, decide_true, Bool.false_and, Bool.true_and, Bool.false_eq_true, if_false,
    if_true]
  cases skipStatement 0 us <;> rfl

theorem Ambient.headIsName (h : Ambient front last behind rest) : headIsName (significant (front ++ last :: behind)) = true := by
  obtain ⟨w, ms, hfront⟩ := exists_word_of_header h.header
  rw [headIsName_significant, lexemes_append, hfront]
  rfl

/-- Where a statement may begin, an ambient declaration is dropped in one step, together with an `export` before it. Nothing of what
follows is dropped with it, and nothing of the declaration is left if and only if, outside round and square brackets, it has no curly bracket
and no line break before its semicolon or its body. -/
theorem ambient_dropped_iff {content : String} {ts : List Token} {e : Eraser} {declares : Token}
    (hlex : tokenize content.toList 0 .first = .ok ts) (hrun : Reaches (start ts) e) (hbegins : e.BeginsStatement)
    (hrest : e.rest = declares :: (front ++ last :: behind)) (hdeclares : declares.lexeme = word "declare")
    (h : Ambient front last behind rest) :
    ∃ e', Steps e e' ∧ erase content = (walk e').map (fun e => ⟨e.output, e.specifiers.reverse⟩) ∧
      (∃ passed, e' = { e.retractExport with passed, rest := e'.rest }) ∧ rest <:+ e'.rest ∧ (e'.rest = rest ↔ Unbroken front) := by
  obtain ⟨r, hr, hsuffix, hall⟩ := skipStatement_of_ambient h
  have hstep : step e declares (front ++ last :: behind) = .ok (skipTo e.retractExport r.afterHead) := by
    rw [step_of_ambient hbegins hdeclares h.headIsName, hr]
    rfl
  have hsteps : Steps e (skipTo e.retractExport r.afterHead).1 := .intro hrest hstep
  refine ⟨_, hsteps, ?_, ⟨_, rfl⟩, hsuffix, hall⟩
  rw [erase, hlex, ← (hrun.trans (.single hsteps)).walk_eq]

/-- Line breaks inside brackets do no harm. -/
theorem ambient_dropped_iff_tuple : ∃ (ts : List Token) (declares : Token) (front : List Token) (last : Token) (rest : List Token)
    (e' : Eraser), tokenize "declare const x: [\n  T\n];\nf();".toList 0 .first = .ok ts ∧ ts = declares :: (front ++ last :: rest) ∧
      declares.lexeme = word "declare" ∧ Ambient front last rest rest ∧ (start ts).BeginsStatement ∧ Unbroken front ∧
      Steps (start ts) e' ∧ e'.kept = [] ∧ e'.rest = rest ∧
      erase "declare const x: [\n  T\n];\nf();" = (walk e').map fun e => ⟨e.output, e.specifiers.reverse⟩ := by
  let declares : Token := ⟨.identifier, "declare", 0, ⟨1, 1⟩⟩
  let front : List Token :=
    [⟨.blank, " ", 7, ⟨1, 8⟩⟩, ⟨.identifier, "const", 8, ⟨1, 9⟩⟩, ⟨.blank, " ", 13, ⟨1, 14⟩⟩, ⟨.identifier, "x", 14, ⟨1, 15⟩⟩,
     ⟨.punctuation, ":", 15, ⟨1, 16⟩⟩, ⟨.blank, " ", 16, ⟨1, 17⟩⟩, ⟨.punctuation, "[", 17, ⟨1, 18⟩⟩, ⟨.blank, "\n  ", 18, ⟨1, 19⟩⟩,
     ⟨.identifier, "T", 21, ⟨2, 3⟩⟩, ⟨.blank, "\n", 22, ⟨2, 4⟩⟩, ⟨.punctuation, "]", 23, ⟨3, 1⟩⟩]
  let last : Token := ⟨.punctuation, ";", 24, ⟨3, 2⟩⟩
  let rest : List Token :=
    [⟨.blank, "\n", 25, ⟨3, 3⟩⟩, ⟨.identifier, "f", 26, ⟨4, 1⟩⟩, ⟨.punctuation, "(", 27, ⟨4, 2⟩⟩, ⟨.punctuation, ")", 28, ⟨4, 3⟩⟩,
     ⟨.punctuation, ";", 29, ⟨4, 4⟩⟩]
  have hlex : tokenize "declare const x: [\n  T\n];\nf();".toList 0 .first = .ok (declares :: (front ++ last :: rest)) := by cbv
  have hshape := shaped_of_lexFrom (lexFrom_of_tokenize hlex)
  have htuple : TypeText .whole false false [mark "[", word "T", mark "]"] :=
    .whole (.operand (.simple (.based (.square (.intro (.leaf rfl rfl .nil))) .nil)))
  have hambient : Ambient front last rest rest := by
    refine ⟨fun t ht => hshape t (List.mem_cons_of_mem _ (List.mem_append_left _ ht)), ?_, .inl ⟨rfl, rfl⟩⟩
    exact .bindings (by decide) (.one htuple)
  have hunbroken : Unbroken front := by decide
  obtain ⟨e', hstep, hmore, ⟨passed, heq⟩, _, hall⟩ :=
    ambient_dropped_iff hlex (.refl _) (beginsStatement_start _) rfl rfl hambient
  refine ⟨_, declares, front, last, rest, e', hlex, rfl, rfl, hambient, beginsStatement_start _, hunbroken, hstep, ?_, hall.mpr hunbroken,
    hmore⟩
  rw [heq]
  rfl

/-- A line break before the type ends the declaration, and the type stays in the code; so does what follows an object type. -/
theorem ambient_left_of_break : (∃ (ts : List Token) (declares : Token) (front : List Token) (last : Token),
    tokenize "declare const x:\n  T;".toList 0 .first = .ok ts ∧ ts = declares :: (front ++ [last]) ∧
      declares.lexeme = word "declare" ∧ Ambient front last [] [] ∧ ¬Unbroken front ∧
      erase "declare const x:\n  T;" = .ok ⟨"\n  T;", []⟩) ∧
    erase "declare const x: \x7b a: T \x7d | U;" = .ok ⟨" | U;", []⟩ := by
  let declares : Token := ⟨.identifier, "declare", 0, ⟨1, 1⟩⟩
  let front : List Token :=
    [⟨.blank, " ", 7, ⟨1, 8⟩⟩, ⟨.identifier, "const", 8, ⟨1, 9⟩⟩, ⟨.blank, " ", 13, ⟨1, 14⟩⟩, ⟨.identifier, "x", 14, ⟨1, 15⟩⟩,
     ⟨.punctuation, ":", 15, ⟨1, 16⟩⟩, ⟨.blank, "\n  ", 16, ⟨1, 17⟩⟩, ⟨.identifier, "T", 19, ⟨2, 3⟩⟩]
  let last : Token := ⟨.punctuation, ";", 20, ⟨2, 4⟩⟩
  have hlex : tokenize "declare const x:\n  T;".toList 0 .first = .ok (declares :: (front ++ [last])) := by cbv
  have hshape := shaped_of_lexFrom (lexFrom_of_tokenize hlex)
  have hname : "T" ∉ typePrefixes := by decide
  have hambient : Ambient front last [] [] := by
    refine ⟨fun t ht => hshape t (List.mem_cons_of_mem _ (List.mem_append_left _ ht)), ?_, .inl ⟨rfl, rfl⟩⟩
    exact .bindings (by decide) (.one (.whole (.operand (.simple (.based (.named (.plain hname .nil)) .nil)))))
  exact ⟨⟨_, declares, front, last, hlex, rfl, rfl, hambient, by decide, by cbv⟩, by cbv⟩

/-! ## Programs with ambient declarations -/

/-- The first word of the declaration. -/
theorem Ambient.written (h : Ambient front last behind rest) :
    ∃ w mid, Written [typedWord w] (front ++ last :: behind) mid := by
  obtain ⟨w, ms, hfront⟩ := exists_word_of_header h.header
  obtain ⟨mid, hw, _⟩ := exists_written_of_lexemes (glued_map_typed [word w]) h.shaped hfront
  exact ⟨w, _, hw.extend (last :: behind)⟩

section View

variable {v : View}

/-- An ambient declaration is erased, and with it an `export` before it. -/
theorem goes_ambient (hw : Written [typedWord "declare"] v.rest (front ++ last :: behind)) (h : Ambient front last behind rest)
    (hunbroken : Unbroken front) (hbefore : ∀ m, v.said.head? = some m → m.2 ∈ boundaries)
    (hround : (v.retracted rest).said.head? ≠ some (mark ")")) : Goes v (v.retracted rest) := by
  obtain ⟨t, us, _, _, _, ht, hnil, hgo⟩ := goes_to_symbol hw
  obtain rfl := Written.nil_iff.mp hnil
  obtain ⟨r, hr, _, hall⟩ := skipStatement_of_ambient h
  refine hgo _ fun e he => ⟨skipTo e.retractExport r.afterHead, ?_, he.retract r.afterHead (hall.mpr hunbroken) hround⟩
  rw [step_of_ambient (he.beginsStatement hbefore) ht h.headIsName, hr]
  rfl

/-- The tokens begin with an unbroken ambient declaration, with or without an `export` before it, and `rest` is what follows it. -/
inductive AmbientStatement : List Token → List Token → Prop where
  | intro {exported : List Sym} {ts front behind rest : List Token} {last : Token}
      (hexported : exported = [] ∨ exported = [typedWord "export"])
      (hw : Written (exported ++ [typedWord "declare"]) ts (front ++ last :: behind)) (h : Ambient front last behind rest)
      (hunbroken : Unbroken front) : AmbientStatement ts rest

theorem AmbientStatement.suffix {ts rest : List Token} (h : AmbientStatement ts rest) : rest <:+ ts := by
  obtain @⟨_, _, front, behind, _, last, _, hw, h, _⟩ := h
  exact (h.suffix.trans (List.suffix_cons last behind)).trans ((List.suffix_append front _).trans hw.suffix)

/-- Where a statement may stand, nothing of an ambient declaration is kept. -/
theorem goes_ambientStatement {ts rest : List Token} (h : AmbientStatement ts rest) (hv : v.rest = ts)
    (hclear : Clear [";", "\x7b", "\x7d"] v) : Goes v (v.before rest) := by
  obtain ⟨hexported, hw, h, hunbroken⟩ := h
  obtain ⟨us, hexport, hdeclare⟩ := (hv ▸ hw).split
  obtain ⟨w, mid, hword⟩ := h.written
  refine goes_of_retracts hexported hexport (headIn_of_words (hdeclare.append hword) rfl rfl) hclear fun w hrest hbefore hround => ?_
  exact goes_ambient (hrest ▸ hdeclare) h hunbroken hbefore hround

end View

end Ambient

/-- Erasing statements of the core language and unbroken ambient declarations succeeds, and what is kept is the code of the statements:
nothing of the declarations, and all of what stands before and behind them. -/
theorem erase_ambient {content : String} {ts : List Token} {ms : List Lexeme} (hlex : tokenize content.toList 0 .first = .ok ts)
    (h : ProgramWith AmbientStatement ts ms) :
    ∃ kept specifiers, erase content = .ok ⟨String.join (kept.map (·.text)), specifiers⟩ ∧ kept.Sublist ts ∧ lexemes kept = ms :=
  erase_of_programWith hlex h fun _ _ h => ⟨h.suffix, fun _ hv hclear => goes_ambientStatement h hv hclear⟩

end ScriptLoader.Syntax
