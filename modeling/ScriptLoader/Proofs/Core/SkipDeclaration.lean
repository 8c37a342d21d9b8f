import ScriptLoader.Proofs.Core.SkipType
import ScriptLoader.Proofs.Core.Grammar

/-!
# Skipping the declarations of the core language

Interfaces, type aliases and the types that a class implements are skipped whole: skipping stops right behind them.
-/

namespace ScriptLoader.Syntax

open Eraser

variable {ts rest : List Token}

/-! ## Interfaces -/

theorem skipInterface_cons_other {t : Token} (hangle : t.text ≠ "<") (hcurly : t.text ≠ "\x7b") :
    (skipInterface (t :: ts)).map (·.tokens) = (skipInterface ts).map (·.tokens) := by
  rw [skipInterface, if_neg hangle, if_neg hcurly]
  exact map_tokens_map _ fun _ => rfl

theorem skipInterface_of_trivia {blanks : List Token} (hblanks : ∀ b ∈ blanks, b.isTrivia = true ∧ b.Shaped) :
    (skipInterface (blanks ++ ts)).map (·.tokens) = (skipInterface ts).map (·.tokens) := by
  induction blanks with
  | nil => rfl
  | cons b blanks ih =>
    obtain ⟨hb, hblanks⟩ := List.forall_mem_cons.mp hblanks
    have hother := hb.2.beginsOther_of_trivia hb.1
    rw [← ih hblanks]
    exact skipInterface_cons_other (ne_of_beginsOther hother (by decide)) (ne_of_beginsOther hother (by decide))

/-- A token with the text of a mark is that mark. -/
theorem lexeme_of_text {t : Token} {s : String} (hshape : t.Shaped) (hs : beginsOther s.toList = false) (ht : t.text = s) :
    t.lexeme = mark s := by
  rw [Token.lexeme, hshape.kind_eq_punctuation (ht ▸ hs), ht]

/-- The tokens of some symbols are trivia and then the token of the first symbol. -/
theorem exists_trivia_of_written {m : Lexeme} {ms : List Lexeme} {mid : List Token} (hw : Written ((m :: ms).map typed) ts mid) :
    ∃ blanks t us, ts = blanks ++ t :: us ∧ (∀ b ∈ blanks, b.isTrivia = true ∧ b.Shaped) ∧ significant ts = t :: us ∧
      t.lexeme = m := by
  obtain ⟨blanks, t, us, heq, hblanks, _, ht, _, hs, _⟩ := hw.uncons
  refine ⟨blanks, t, us, heq, hblanks, ?_, hs⟩
  rw [heq, significant_append_of_trivia fun b hb => (hblanks b hb).1, significant_cons_of_not ht]

theorem skipInterface_of_header {header body : List Lexeme} (hheader : Header header) (hbody : Group .curly body)
    (hw : Written ((header ++ body).map typed) ts rest) : Leaves (skipInterface ts) rest := by
  induction hheader generalizing ts with
  | nil =>
    obtain ⟨hskip, _⟩ := skipBracket_of_group hbody hw
    obtain ⟨hinner⟩ := hbody
    obtain ⟨blanks, t, us, rfl, hblanks, hsignificant, hs⟩ := exists_trivia_of_written hw
    have htext : t.text = "\x7b" := (lexeme_eq_mark hs).2
    rw [hsignificant] at hskip
    obtain ⟨r, hr, hleft⟩ := hskip
    rw [leaves_iff, skipInterface_of_trivia hblanks, ← leaves_iff]
    refine ⟨r.toRest, ?_, hleft⟩
    rw [skipInterface, if_neg (by rw [htext]; decide), if_pos htext, hr]
    rfl
  | @leaf m ms hangle hcurly _ ih =>
    obtain ⟨blanks, t, us, rfl, hblanks, _, _, hshape, hs, hrest⟩ := hw.uncons
    have hangle' : t.text ≠ "<" := fun ht => hangle (hs.symm.trans (lexeme_of_text hshape (by decide) ht))
    have hcurly' : t.text ≠ "\x7b" := fun ht => hcurly (hs.symm.trans (lexeme_of_text hshape (by decide) ht))
    rw [leaves_iff, skipInterface_of_trivia hblanks, skipInterface_cons_other hangle' hcurly']
    exact leaves_iff.mp (ih hrest)
  | @angles arguments ms harguments _ ih =>
    rw [List.append_assoc, List.map_append] at hw
    obtain ⟨mid, hfirst, hsecond⟩ := hw.split
    have hskip := skipAngle_of_arguments harguments hfirst
    obtain ⟨_, hmerges⟩ := harguments
    cases hmerges
    obtain ⟨blanks, t, us, rfl, hblanks, hsignificant, hs⟩ := exists_trivia_of_written hfirst
    rw [hsignificant] at hskip
    obtain ⟨r, hr, hleft⟩ := hskip
    rw [leaves_iff, skipInterface_of_trivia hblanks, ← leaves_iff]
    rw [skipInterface, if_pos (lexeme_eq_mark hs).2, hr]
    have hmore := ih hsecond
    rw [← hleft] at hmore
    exact hmore.map _ fun _ => rfl

/-- An interface from its name on. -/
theorem skipInterface_of_name {name : String} {header body : List Lexeme} (hheader : Header header) (hbody : Group .curly body)
    (hw : Written (typedWord name :: (header ++ body).map typed) ts rest) : Leaves (skipInterface ts) rest := by
  have hnamed : Header (word name :: header) := .leaf nofun nofun hheader
  exact skipInterface_of_header hnamed hbody hw

/-! ## Type aliases -/

theorem skipSemicolon_of_written (hw : Written [typedMark ";"] ts rest) : (skipSemicolon ts).tokens = rest := by
  obtain ⟨t, us, hsignificant, _, _, hs, hend⟩ := hw.significant
  obtain rfl := Written.nil_iff.mp hend
  rw [skipSemicolon]
  simp only [Rest.significant, Rest.whole, Rest.tail, hsignificant, headIn, (lexeme_eq_mark hs).2]
  rfl

/-- No semicolon is skipped where none stands. -/
theorem skipSemicolon_of_other (h : headIn (significant ts) [";"] = false) : (skipSemicolon ts).tokens = ts := by
  simp only [skipSemicolon, Rest.significant, Rest.whole, h, Bool.false_eq_true, if_false]

/-- A type alias is skipped, from what follows its name on, as its type and a semicolon. -/
theorem skipTypeAlias_eq {arguments ss : List Sym} (harguments : Arguments arguments)
    (hw : Written (arguments ++ typedMark "=" :: ss) ts rest) :
    ∃ us, Written ss us rest ∧ (skipTypeAlias ts).map (·.tokens) = (skipType us).map fun r => (skipSemicolon r.tokens).tokens := by
  have haliased : ∀ {mid}, Written (typedMark "=" :: ss) mid rest → ∃ us, Written ss us rest ∧
      (skipAliased (significant mid)).map (·.tokens) = (skipType us).map fun r => (skipSemicolon r.tokens).tokens := by
    intro mid hw
    obtain ⟨t, us, hsignificant, _, _, hs, hrest⟩ := hw.significant
    refine ⟨us, hrest, ?_⟩
    rw [hsignificant, skipAliased, if_pos (lexeme_eq_mark hs).2]
    cases skipType us <;> rfl
  cases harguments with
  | none =>
    obtain ⟨us, hrest, heq⟩ := haliased hw
    have hno : headIn (significant ts) ["<"] = false := by
      rw [headIn_significant, hw.lexemes_eq]
      rfl
    refine ⟨us, hrest, ?_⟩
    rw [← heq]
    simp only [skipTypeAlias, Rest.significant, Rest.whole, hno, Bool.false_eq_true, if_false]
    exact map_tokens_map _ fun _ => rfl
  | @some parameters hparameters =>
    obtain ⟨mid, hfirst, hsecond⟩ := hw.split
    obtain ⟨us, hrest, heq⟩ := haliased hsecond
    have hskip := skipAngle_of_arguments hparameters hfirst
    have hangle : headIn (significant ts) ["<"] = true := by
      obtain ⟨_, t, us, hsignificant, hs⟩ := matchAngle_of_arguments hparameters hfirst
      rw [hsignificant, headIn, (lexeme_eq_mark hs).2]
      rfl
    obtain ⟨r, hr, rfl⟩ := hskip
    refine ⟨us, hrest, ?_⟩
    rw [← heq]
    simp only [skipTypeAlias, Rest.significant, Rest.whole, hangle, if_true, hr]
    exact map_tokens_map _ fun _ => rfl

/-- A type alias from what follows its name on. -/
theorem skipTypeAlias_of_type {bare greedy : Bool} {arguments : List Sym} {ms : List Lexeme} (harguments : Arguments arguments)
    (h : TypeText .whole bare greedy ms) (hw : Written (arguments ++ (mark "=" :: (ms ++ [mark ";"])).map typed) ts rest) :
    Leaves (skipTypeAlias ts) rest := by
  obtain ⟨us, hrest, heq⟩ := skipTypeAlias_eq harguments hw
  rw [List.map_append] at hrest
  obtain ⟨mid, htype, hlast⟩ := hrest.split
  obtain ⟨r, hr, rfl⟩ := skipType_of_text h htype ((endsBefore_of_written hlast rfl).of_full)
  rw [leaves_iff, heq, hr]
  exact congrArg Except.ok (skipSemicolon_of_written hlast)

/-! ## Implemented types -/

theorem skipImplemented_of_list {ms : List Lexeme} (h : TypeList ms) (hw : Written (ms.map typed) ts rest)
    (hend : (lexemes rest).head? = some (mark "\x7b")) : LeavesTail (skipImplemented ts) rest := by
  induction h generalizing ts with
  | one h =>
    have hends : EndsBefore .whole true true rest := by
      intro m hm
      rw [hend] at hm
      rw [← Option.some.inj hm]
      rfl
    obtain ⟨r, hr, hleft⟩ := skipType_of_text h hw hends.of_full
    refine ⟨r, ?_, hleft⟩
    rw [skipImplemented, hr]
    dsimp only
    split
    · rename_i comma us hsignificant
      rw [hleft] at hsignificant
      have hhead := head?_lexemes hsignificant
      rw [hend] at hhead
      rw [if_neg]
      rw [(lexeme_eq_mark (Option.some.inj hhead).symm).2]
      decide
    · rfl
  | more h _ ih =>
    rw [List.map_append] at hw
    obtain ⟨mid, hfirst, hsecond⟩ := hw.split
    obtain ⟨comma, us, hcomma, _, _, hs, hrest⟩ := Written.significant hsecond
    obtain ⟨r, hr, hleft⟩ := skipType_of_text h hfirst (endsBefore_of_written hsecond rfl).of_full
    rw [skipImplemented, hr]
    dsimp only
    split
    · rename_i comma' us' hsignificant
      rw [hleft, hcomma] at hsignificant
      obtain ⟨rfl, rfl⟩ := List.cons.inj hsignificant
      rw [if_pos (lexeme_eq_mark hs).2]
      exact (ih hrest).map _ fun _ => rfl
    · rename_i hsignificant
      rw [hleft, hcomma] at hsignificant
      cases hsignificant

end ScriptLoader.Syntax
