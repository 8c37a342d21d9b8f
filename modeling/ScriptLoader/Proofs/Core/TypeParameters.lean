import ScriptLoader.Proofs.Core.TypeExtent
import ScriptLoader.Proofs.Core.Dropping

/-!
# Type parameters

Lists of type parameters, each a name with a bound and a default or without (`ParameterForms`). A list reads like a list of type
arguments if and only if no parameter has a default, since an equals sign stands in no list of arguments. So a list without defaults is
erased wherever it is declared, and one with a default stays in the code or is refused (`typeParameters_erased_iff`).
-/

namespace ScriptLoader.Syntax

open Eraser

/-! ## Lists of type parameters -/

/-- What a type parameter extends, if it extends anything. -/
inductive BoundForm : List Piece → Prop where
  | none : BoundForm []
  | some {cut : Bool} {ps : List Piece} (h : TypeForm (Between true) .whole cut ps) : BoundForm (.lexeme (word "extends") :: ps)

/-- A type parameter. It is `defaulted` if it has a default. -/
inductive ParameterForm : (defaulted : Bool) → List Piece → Prop where
  | plain {x : String} {bound : List Piece} (hbound : BoundForm bound) : ParameterForm false (.lexeme (word x) :: bound)
  | defaulted {cut : Bool} {x : String} {bound ps : List Piece} (hbound : BoundForm bound)
      (h : TypeForm (Between true) .whole cut ps) :
      ParameterForm true (.lexeme (word x) :: bound ++ .lexeme (mark "=") :: ps)

/-- Type parameters with commas between them, some of them `defaulted` or none. -/
inductive ParameterForms : (defaulted : Bool) → List Piece → Prop where
  | one {d : Bool} {ps : List Piece} (h : ParameterForm d ps) : ParameterForms d ps
  | more {d d' : Bool} {ps qs : List Piece} (h : ParameterForm d ps) (hothers : ParameterForms d' qs) :
      ParameterForms (d || d') (ps ++ .lexeme (mark ",") :: qs)

section Lists

variable {d : Bool} {ps qs : List Piece} {ms : List Lexeme} {ts rest : List Token}

theorem ShapedPieces.closing (h : ShapedPieces ps) : ShapedPieces (.closing :: ps) := fun m hm =>
  h m ((List.mem_cons.mp hm).resolve_left nofun)

/-- What the lexer made are such pieces. -/
theorem shapedPieces_of_written (hm : Merges ps ms) (hw : Written (ms.map typed) ts rest) : ShapedPieces ps := by
  induction hm generalizing ts with
  | nil => exact nofun
  | @lexeme m _ _ hm ih =>
    obtain ⟨_, t, us, _, _, _, _, hshape, ht, hrest⟩ := hw.uncons
    intro m' hm' hkind
    rcases List.mem_cons.mp hm' with heq | hm'
    · cases heq
      obtain rfl : t.lexeme = m := ht
      exact beginsOther_of_shape hshape hkind
    · exact ih hrest m' hm' hkind
  | one hm ih =>
    obtain ⟨_, _, _, _, _, _, _, _, _, hrest⟩ := hw.uncons
    exact .closing (ih hrest)
  | two hm ih =>
    obtain ⟨_, _, _, _, _, _, _, _, _, hrest⟩ := hw.uncons
    exact .closing (.closing (ih hrest))
  | three hm ih =>
    obtain ⟨_, _, _, _, _, _, _, _, _, hrest⟩ := hw.uncons
    exact .closing (.closing (.closing (ih hrest)))

theorem between_of_bound (h : BoundForm ps) (hshape : ShapedPieces ps) : Between false ps := by
  cases h with
  | none => exact .nil false
  | some h => exact .word hshape (between_of_form h hshape.tail)

/-- Parameters without defaults may stand between angle brackets. -/
theorem between_of_parameters (h : ParameterForms false ps) (hshape : ShapedPieces ps) : Between false ps := by
  generalize hd : false = d at h
  have hone : ∀ {ps}, ParameterForm false ps → ShapedPieces ps → Between false ps := by
    rintro _ ⟨hbound⟩ hshape
    exact .word hshape (between_of_bound hbound hshape.tail)
  induction h with
  | one h =>
    subst hd
    exact hone h hshape
  | more h hothers ih =>
    obtain ⟨rfl, rfl⟩ := Bool.or_eq_false_iff.mp hd.symm
    exact (hone h hshape.left).append (.leaf rfl rfl rfl rfl (by decide) (ih hshape.right.tail rfl))

/-- Before the first default stands what may stand between angle brackets. -/
theorem exists_default (h : ParameterForms true ps) (hshape : ShapedPieces ps) :
    ∃ first others, ps = first ++ .lexeme (mark "=") :: others ∧ Between false first := by
  generalize hd : true = d at h
  induction h with
  | one h =>
    cases h with
    | plain => nomatch hd
    | defaulted hbound h =>
      exact ⟨_, _, rfl, .word hshape.left (between_of_bound hbound hshape.left.tail)⟩
  | @more d d' ps qs h hothers ih =>
    cases h with
    | @defaulted _ x bound ps hbound h =>
      refine ⟨.lexeme (word x) :: bound, ps ++ .lexeme (mark ",") :: qs, by simp, ?_⟩
      exact .word hshape.left.left (between_of_bound hbound hshape.left.left.tail)
    | @plain x bound hbound =>
      obtain ⟨first, others, rfl, hfirst⟩ := ih hshape.right.tail hd
      refine ⟨.lexeme (word x) :: bound ++ .lexeme (mark ",") :: first, others, by simp, ?_⟩
      exact Between.append (.word hshape.left (between_of_bound hbound hshape.left.tail)) (.leaf rfl rfl rfl rfl (by decide) hfirst)

end Lists

/-! ## Reading a list of type parameters -/

section Match

variable {d : Bool} {ps qs : List Piece} {ms : List Lexeme} {ts rest : List Token}

theorem closeAngle_cons_equals {depth : Int} {opened : List Bracket} {t : Token} (ht : t.lexeme = mark "=") :
    closeAngle depth opened (t :: ts) = none := by
  obtain ⟨hkind, htext⟩ := lexeme_eq_mark ht
  have hangle : angleStep t.text = none := by rw [htext]; decide
  have hopen : Bracket.opened? t.text = none := by rw [htext]; decide
  have hclose : Bracket.closed? t.text = none := by rw [htext]; decide
  have hmisfit : mayStandInTypeArguments t = false := by
    rw [mayStandInTypeArguments, Token.isTrivia, Token.isLiteral, hkind, htext]
    decide
  rw [closeAngle]
  simp only [hangle, hopen, hclose, hmisfit, Bool.false_eq_true, if_false, ite_self]

/-- A token that stands for `n + 1` closing angle brackets, none of which closes the last one. -/
theorem closeAngle_eq_none_of_closings {n depth : Nat} {opened : List Bracket} {s : String}
    (hs : angleStep s = some (-((n + 1 : Nat) : Int)))
    (ih : ∀ {depth : Nat}, Closes depth opened (ps ++ [.closing]) → ∀ {ts : List Token}, Written (ms.map typed) ts rest →
      closeAngle depth opened ts = none)
    (h : Closes depth opened (List.replicate (n + 1) .closing ++ (ps ++ [.closing])))
    (hw : Written ((mark s :: ms).map typed) ts rest) : closeAngle depth opened ts = none := by
  obtain ⟨blanks, t, us, rfl, hblanks, _, _, _, ht, hrest⟩ := hw.uncons
  obtain ⟨_, htext⟩ := lexeme_eq_mark ht
  have hstep : angleStep t.text = some (-((n + 1 : Nat) : Int)) := by rw [htext]; exact hs
  rcases closes_replicate h with ⟨_, hnil, _⟩ | ⟨hlt, hcloses⟩
  · exact absurd hnil (List.append_ne_nil_of_right_ne_nil _ (List.cons_ne_nil _ _))
  · have hnone := ih hcloses hrest
    rw [show ((depth - (n + 1) : Nat) : Int) = (depth : Int) + -((n + 1 : Nat) : Int) by omega] at hnone
    rw [← Option.map_eq_none_iff (f := (·.tokens)), closeAngle_of_trivia hblanks, closeAngle_cons_angle hstep (by omega), hnone]
    rfl

/-- Where an equals sign stands before the last angle bracket is closed, the tokens do not read like type arguments. -/
theorem closeAngle_eq_none (hmerges : Merges (ps ++ .lexeme (mark "=") :: qs) ms) {depth : Nat} {opened : List Bracket}
    (h : Closes depth opened (ps ++ [.closing])) (hw : Written (ms.map typed) ts rest) : closeAngle depth opened ts = none := by
  generalize heq : ps ++ .lexeme (mark "=") :: qs = all at hmerges
  induction hmerges generalizing ps depth opened ts with
  | nil => simp at heq
  | @lexeme m rest' ms hmerges ih =>
    obtain ⟨blanks, t, us, rfl, hblanks, _, _, _, hs, hrest⟩ := hw.uncons
    have hm : t.lexeme = m := hs
    have htext : t.text = m.2 := congrArg Prod.snd hs
    rw [← Option.map_eq_none_iff (f := (·.tokens)), closeAngle_of_trivia hblanks]
    rcases ps with _ | ⟨p, ps⟩
    · obtain ⟨hlexeme, _⟩ := List.cons.inj heq
      cases hlexeme
      rw [closeAngle_cons_equals hm]
      rfl
    · obtain ⟨rfl, hps⟩ := List.cons.inj heq
      rw [List.cons_append, Closes] at h
      split at h
      · rename_i hless
        have hstep : angleStep t.text = some 1 := by rw [htext, hless]; decide
        rw [closeAngle_cons_angle hstep (by omega)]
        exact Option.map_eq_none_iff.mpr (ih h hrest hps)
      · obtain ⟨hangle, h⟩ := h
        rw [← htext] at hangle h
        cases hopen : Bracket.opened? t.text with
        | some b =>
          rw [hopen] at h
          rw [closeAngle_cons_opener hangle hopen]
          exact Option.map_eq_none_iff.mpr (ih h hrest hps)
        | none =>
          rw [hopen] at h
          cases hclose : Bracket.closed? t.text with
          | some b =>
            rw [hclose] at h
            obtain ⟨others, rfl, h⟩ := h
            rw [closeAngle_cons_closer hangle hopen hclose]
            exact Option.map_eq_none_iff.mpr (ih h hrest hps)
          | none =>
            rw [hclose] at h
            obtain ⟨hfits, hsemicolon, h⟩ := h
            rw [closeAngle_cons_other hangle hopen hclose hsemicolon (mayStand_of_fits (hm ▸ hfits))]
            exact Option.map_eq_none_iff.mpr (ih h hrest hps)
  | one hmerges ih =>
    obtain ⟨ps, rfl, hps⟩ := Merges.exists_of_closings (n := 1) heq
    exact closeAngle_eq_none_of_closings (n := 0) rfl (fun h _ hw => ih h hw hps) h hw
  | two hmerges ih =>
    obtain ⟨ps, rfl, hps⟩ := Merges.exists_of_closings (n := 2) heq
    exact closeAngle_eq_none_of_closings (n := 1) rfl (fun h _ hw => ih h hw hps) h hw
  | three hmerges ih =>
    obtain ⟨ps, rfl, hps⟩ := Merges.exists_of_closings (n := 3) heq
    exact closeAngle_eq_none_of_closings (n := 2) rfl (fun h _ hw => ih h hw hps) h hw

/-- Parameters without defaults read like type arguments. -/
theorem typeArguments_of_parameters (h : ParameterForms false ps) (hm : Merges (inAngles ps) ms)
    (hw : Written (ms.map typed) ts rest) : TypeArguments ms := by
  have hshape : ShapedPieces ps := (shapedPieces_of_written hm hw).tail.left
  exact .intro (between_of_parameters h hshape) hm

/-- Parameters with a default do not read like type arguments. -/
theorem matchAngle_eq_none (h : ParameterForms true ps) (hm : Merges (inAngles ps) ms) (hw : Written (ms.map typed) ts rest) :
    matchAngle (significant ts) = none := by
  have hshape : ShapedPieces ps := (shapedPieces_of_written hm hw).tail.left
  obtain ⟨first, others, rfl, hfirst⟩ := exists_default h hshape
  have hcloses : Closes 1 [] (first ++ [.closing]) := closes_of_between hfirst Nat.one_pos nofun ⟨rfl, rfl⟩
  rw [inAngles, List.cons_append, List.append_assoc, List.cons_append] at hm
  cases hm with
  | lexeme hm =>
    obtain ⟨t, us, hsig, _, _, hs, hrest⟩ := hw.significant
    have hstep : angleStep t.text = some 1 := by rw [(lexeme_eq_mark hs).2]; decide
    rw [hsig, matchAngle, ← Option.map_eq_none_iff (f := (·.tokens)), closeAngle_cons_angle hstep (by decide)]
    exact Option.map_eq_none_iff.mpr (closeAngle_eq_none hm hcloses hrest)

end Match

/-! ## Erasing a list of type parameters -/

section Erased

variable {d : Bool} {ps : List Piece} {ms : List Lexeme} {e : Eraser} {t : Token} {us rest : List Token}

/-- Where types are listed, a list of type parameters is erased if and only if none has a default. -/
theorem exists_step_iff_of_parameters (h : ParameterForms d ps) (hm : Merges (inAngles ps) ms) (ht : t.lexeme = mark "<")
    (hw : Written (ms.map typed) (t :: us) rest) (hlist : e.isTypeParameterList (significant rest) = true) :
    (∃ e', step e t us = .ok e' ∧ e'.1.rest = rest ∧ e'.1.kept = e.kept) ↔ d = false := by
  have hsig : significant (t :: us) = t :: us := significant_cons_of_not (isTrivia_of_mark ht) us
  rw [step_of_angle ht]
  cases d with
  | false =>
    obtain ⟨hfinds, _⟩ := matchAngle_of_arguments (typeArguments_of_parameters h hm hw) hw
    rw [hsig] at hfinds
    obtain ⟨r, hr, rfl⟩ := hfinds
    refine iff_of_true ⟨skipTo e r, ?_, rfl, rfl⟩ rfl
    rw [hr]
    exact if_pos hlist
  | true =>
    have hnone := matchAngle_eq_none h hm hw
    rw [hsig] at hnone
    rw [hnone]
    refine iff_of_false ?_ nofun
    rintro ⟨e', hok, _, hkept⟩
    cases hok
    exact List.cons_ne_self t e.kept hkept

/-- An interface is refused whose type parameters do not read like type arguments. -/
theorem skipInterface_ne_ok {ts : List Token} (hlist : Merges (inAngles ps) ms) (hw : Written (ms.map typed) ts rest)
    (hnone : matchAngle (significant ts) = none) (r : Rest ts) : skipInterface ts ≠ .ok r := by
  intro hr
  cases hlist
  obtain ⟨blanks, t, us, rfl, hblanks, hsig, hs⟩ := exists_trivia_of_written hw
  rw [hsig] at hnone
  have hskip := @skipInterface_of_trivia (t :: us) blanks hblanks
  rw [hr, skipInterface, if_pos (lexeme_eq_mark hs).2, skipAngle, hnone] at hskip
  cases hskip

/-- A type alias is refused whose type parameters do not read like type arguments. -/
theorem skipTypeAlias_ne_ok {ts : List Token} (hlist : Merges (inAngles ps) ms) (hw : Written (ms.map typed) ts rest)
    (hnone : matchAngle (significant ts) = none) (r : Rest ts) : skipTypeAlias ts ≠ .ok r := by
  intro hr
  cases hlist
  have hangle : headIn (significant ts) ["<"] = true := headIn_of_written hw ["<"]
  simp only [skipTypeAlias, Rest.significant, Rest.whole, hangle, if_true, skipAngle, hnone] at hr
  cases hr

/-- An interface is erased as a whole if and only if none of its type parameters has a default. -/
theorem exists_step_iff_of_interface {name : String} {header body : List Lexeme} (h : ParameterForms d ps)
    (hm : Merges (inAngles ps) ms) (he : e.BeginsStatement) (ht : t.lexeme = word "interface") (hheader : Header header)
    (hbody : Group .curly body) (hw : Written (typedWord name :: (ms ++ header ++ body).map typed) us rest) :
    (∃ e', step e t us = .ok e' ∧ e'.1.rest = rest ∧ e'.1.kept = e.retractExport.kept) ↔ d = false := by
  rw [step_of_interface he ht (headIsName_of_written hw)]
  obtain ⟨blanks, x, vs, hus, hblanks, _, _, hshape, hx, hrest⟩ := hw.uncons
  rw [List.append_assoc, List.map_append] at hrest
  obtain ⟨mid, hlist, _⟩ := hrest.split
  cases d with
  | false =>
    have hnamed : Header (ms ++ header) := .angles (typeArguments_of_parameters h hm hlist) hheader
    obtain ⟨r, hr, hleft⟩ := skipInterface_of_name hnamed hbody hw
    refine iff_of_true ⟨skipTo e.retractExport r.afterHead, ?_, hleft, rfl⟩ rfl
    rw [hr]
    rfl
  | true =>
    refine iff_of_false ?_ nofun
    rintro ⟨e', hok, _⟩
    obtain ⟨r, hr, _⟩ := ok_of_map hok
    have hother := fun {m : String} => text_ne_of_kind (m := m) hshape (by rw [(lexeme_eq_word hx).1]; decide)
    have hskip : (skipInterface us).map (·.tokens) = (skipInterface vs).map (·.tokens) := by
      rw [hus, skipInterface_of_trivia hblanks, skipInterface_cons_other (hother (by decide)) (hother (by decide))]
    rw [hr] at hskip
    obtain ⟨r', hr', _⟩ := ok_of_map hskip.symm
    exact skipInterface_ne_ok hm hlist (matchAngle_eq_none h hm hlist) r' hr'

/-- A type alias is erased as a whole if and only if none of its type parameters has a default. -/
theorem exists_step_iff_of_typeAlias {bare greedy : Bool} {name : String} {type : List Lexeme} (h : ParameterForms d ps)
    (hm : Merges (inAngles ps) ms) (he : e.BeginsStatement) (ht : t.lexeme = word "type") (htype : TypeText .whole bare greedy type)
    (hw : Written (typedWord name :: (ms ++ mark "=" :: (type ++ [mark ";"])).map typed) us rest) :
    (∃ e', step e t us = .ok e' ∧ e'.1.rest = rest ∧ e'.1.kept = e.retractExport.kept) ↔ d = false := by
  obtain ⟨s, ss, hhead, hs⟩ : ∃ s ss, (ms ++ mark "=" :: (type ++ [mark ";"])).map typed = s :: ss ∧ s.lexeme.2 ∈ ["=", "<"] := by
    cases hm
    exact ⟨_, _, rfl, by decide⟩
  rw [hhead] at hw
  obtain ⟨us', hw', f, hf, hstep⟩ := step_of_typeAlias he ht hw hs
  rw [← hhead, List.map_append] at hw'
  obtain ⟨mid, hlist, _⟩ := hw'.split
  rw [hstep]
  cases d with
  | false =>
    obtain ⟨r, hr, hleft⟩ := skipTypeAlias_of_type (.some (typeArguments_of_parameters h hm hlist)) htype hw'
    refine iff_of_true ⟨skipTo e.retractExport (f r), ?_, (hf r).trans hleft, rfl⟩ rfl
    rw [hr]
    rfl
  | true =>
    refine iff_of_false ?_ nofun
    rintro ⟨e', hok, _⟩
    obtain ⟨r, hr, _⟩ := ok_of_map hok
    exact skipTypeAlias_ne_ok hm hlist (matchAngle_eq_none h hm hlist) r hr

/-- A list of type parameters before the parameters of a function or behind the name of a class, and an interface or a type alias with
such a list, are erased if and only if no type parameter has a default. -/
theorem typeParameters_erased_iff (h : ParameterForms d ps) (hm : Merges (inAngles ps) ms) :
    (∀ (e : Eraser) (t : Token) (us rest : List Token), t.lexeme = mark "<" → Written (ms.map typed) (t :: us) rest →
      headIn (significant rest) ["("] = true ∨ (headIsName e.keptMeaning = true ∧ e.previousText₂ = some "class") →
      ((∃ e', step e t us = .ok e' ∧ e'.1.rest = rest ∧ e'.1.kept = e.kept) ↔ d = false)) ∧
    (∀ (e : Eraser) (t : Token) (us rest : List Token) (name : String) (header body : List Lexeme), e.BeginsStatement →
      t.lexeme = word "interface" → Header header → Group .curly body →
      Written (typedWord name :: (ms ++ header ++ body).map typed) us rest →
      ((∃ e', step e t us = .ok e' ∧ e'.1.rest = rest ∧ e'.1.kept = e.retractExport.kept) ↔ d = false)) ∧
    ∀ (e : Eraser) (t : Token) (us rest : List Token) (name : String) (bare greedy : Bool) (type : List Lexeme), e.BeginsStatement →
      t.lexeme = word "type" → TypeText .whole bare greedy type →
      Written (typedWord name :: (ms ++ mark "=" :: (type ++ [mark ";"])).map typed) us rest →
      ((∃ e', step e t us = .ok e' ∧ e'.1.rest = rest ∧ e'.1.kept = e.retractExport.kept) ↔ d = false) := by
  refine ⟨fun e t us rest ht hw hplace => ?_, fun e t us rest name header body he ht hheader hbody hw => ?_,
    fun e t us rest name bare greedy type he ht htype hw => ?_⟩
  · refine exists_step_iff_of_parameters h hm ht hw ?_
    rw [isTypeParameterList]
    rcases hplace with hcall | ⟨hname, hclass⟩
    · rw [hcall]
      rfl
    · rw [hname, decide_eq_true hclass, Bool.and_self, Bool.or_true, Bool.true_or]
  · exact exists_step_iff_of_interface h hm he ht hheader hbody hw
  · exact exists_step_iff_of_typeAlias h hm he ht htype hw

theorem typeParameters_erased_iff_bounded : ∃ ps ms, ParameterForms false ps ∧ Merges (inAngles ps) ms ∧
    (∃ t us rest, tokenize "<T extends A<B>, U>(x) => x".toList 0 .first = .ok (t :: us) ∧ t.lexeme = mark "<" ∧
      Written (ms.map typed) (t :: us) rest ∧ headIn (significant rest) ["("] = true ∧
      ∃ e', step (start (t :: us)) t us = .ok e' ∧ e'.1.rest = rest ∧ e'.1.kept = []) ∧
    (∃ t us rest, tokenize "interface I<T extends A<B>, U> { x: T }".toList 0 .first = .ok (t :: us) ∧
      (start (t :: us)).BeginsStatement ∧ t.lexeme = word "interface" ∧ Header [] ∧
      Group .curly [mark "\x7b", word "x", mark ":", word "T", mark "\x7d"] ∧
      Written (typedWord "I" :: (ms ++ [] ++ [mark "\x7b", word "x", mark ":", word "T", mark "\x7d"]).map typed) us rest ∧
      ∃ e', step (start (t :: us)) t us = .ok e' ∧ e'.1.rest = rest ∧ e'.1.kept = []) ∧
    ∃ t us rest, tokenize "type C<T extends A<B>, U> = T;".toList 0 .first = .ok (t :: us) ∧ (start (t :: us)).BeginsStatement ∧
      t.lexeme = word "type" ∧ TypeText .whole false false [word "T"] ∧
      Written (typedWord "C" :: (ms ++ mark "=" :: ([word "T"] ++ [mark ";"])).map typed) us rest ∧
      ∃ e', step (start (t :: us)) t us = .ok e' ∧ e'.1.rest = rest ∧ e'.1.kept = [] := by
  have hbound : TypeForm (Between true) .whole false _ :=
    .whole (.operand (.simple (.primary (.applied (x := "A") (by decide) .nil
      (.leaf (m := word "B") rfl rfl rfl rfl (by decide) (.nil false))) .nil)))
  let ps : List Piece := [.lexeme (word "T"), .lexeme (word "extends"), .lexeme (word "A"), .lexeme (mark "<"), .lexeme (word "B"), .closing,
    .lexeme (mark ","), .lexeme (word "U")]
  have hform : ParameterForms false ps := .more (.plain (x := "T") (.some hbound)) (.one (.plain (x := "U") .none))
  let ms := [mark "<", word "T", word "extends", word "A", mark "<", word "B", mark ">", mark ",", word "U", mark ">"]
  have hmerges : Merges (inAngles ps) ms :=
    .lexeme (.lexeme (.lexeme (.lexeme (.lexeme (.lexeme (.one (.lexeme (.lexeme (.one .nil)))))))))
  obtain ⟨hlists, hinterfaces, haliases⟩ := typeParameters_erased_iff hform hmerges
  refine ⟨ps, ms, hform, hmerges, ?_, ?_, ?_⟩
  · obtain ⟨t, us, hlex, ht, hlexemes, hshape⟩ := exists_cons_of_tokenize "<T extends A<B>, U>(x) => x" (mark "<")
      (ms.tail ++ [mark "(", word "x", mark ")", mark "=>", word "x"]) (by cbv)
    have hsame : lexemes (t :: us) = (ms.map typed).map Sym.lexeme ++ [mark "(", word "x", mark ")", mark "=>", word "x"] := by
      rw [lexemes_cons_of_not (isTrivia_of_mark ht), ht, hlexemes]
      rfl
    obtain ⟨rest, hw, hrest⟩ := exists_written_of_lexemes (by decide) hshape hsame
    have hcall : headIn (significant rest) ["("] = true := by
      rw [headIn_significant, hrest]
      rfl
    exact ⟨t, us, rest, hlex, ht, hw, hcall, (hlists _ t us rest ht hw (.inl hcall)).mpr rfl⟩
  · obtain ⟨t, us, hlex, ht, hlexemes, hshape⟩ := exists_cons_of_tokenize "interface I<T extends A<B>, U> { x: T }" (word "interface")
      (word "I" :: ms ++ [mark "\x7b", word "x", mark ":", word "T", mark "\x7d"]) (by cbv)
    have hsame : lexemes us = (typedWord "I" ::
        (ms ++ [] ++ [mark "\x7b", word "x", mark ":", word "T", mark "\x7d"]).map typed).map Sym.lexeme ++ [] := hlexemes
    obtain ⟨rest, hw, _⟩ := exists_written_of_lexemes (by decide) (List.forall_mem_cons.mp hshape).2 hsame
    have hstart : (start (t :: us)).BeginsStatement := beginsStatement_start _
    have hbody : Group .curly [mark "\x7b", word "x", mark ":", word "T", mark "\x7d"] :=
      .intro (.leaf rfl rfl (.leaf rfl rfl (.leaf rfl rfl .nil)))
    exact ⟨t, us, rest, hlex, hstart, ht, .nil, hbody, hw, (hinterfaces _ t us rest "I" [] _ hstart ht .nil hbody hw).mpr rfl⟩
  · obtain ⟨t, us, hlex, ht, hlexemes, hshape⟩ := exists_cons_of_tokenize "type C<T extends A<B>, U> = T;" (word "type")
      (word "C" :: ms ++ [mark "=", word "T", mark ";"]) (by cbv)
    have hsame : lexemes us = (typedWord "C" :: (ms ++ mark "=" :: ([word "T"] ++ [mark ";"])).map typed).map Sym.lexeme ++ [] :=
      hlexemes
    obtain ⟨rest, hw, _⟩ := exists_written_of_lexemes (by decide) (List.forall_mem_cons.mp hshape).2 hsame
    have hstart : (start (t :: us)).BeginsStatement := beginsStatement_start _
    have htype : TypeText .whole false false [word "T"] :=
      .whole (.operand (.simple (.based (.named (.plain (by decide) .nil)) .nil)))
    exact ⟨t, us, rest, hlex, hstart, ht, htype, hw, (haliases _ t us rest "C" _ _ _ hstart ht htype hw).mpr rfl⟩

/-- A list with a default stays in the code of a function, and an interface or a type alias with one is refused. -/
theorem typeParameters_kept_of_default : ∃ ps ms t us rest, ParameterForms true ps ∧ Merges (inAngles ps) ms ∧
    tokenize "<T = string>(x: T) => x".toList 0 .first = .ok (t :: us) ∧ t.lexeme = mark "<" ∧ Written (ms.map typed) (t :: us) rest ∧
      headIn (significant rest) ["("] = true ∧ (∀ e', step (start (t :: us)) t us = .ok e' → e'.1.kept ≠ []) ∧
      erase "function f<T = string>(x: T) { return x; }" = .ok ⟨"function f<T = string>(x) { return x; }", []⟩ ∧
      erase "interface I<T = string> { x: T }" = .error ⟨.unexpectedEnd "type parameters", some ⟨1, 12⟩⟩ ∧
      erase "type C<T = string> = T;" = .error ⟨.unexpectedEnd "type parameters", some ⟨1, 7⟩⟩ := by
  have htype : TypeForm (Between true) .whole false _ := .whole (.operand (.simple (.primary (.name (x := "string") (by decide) .nil) .nil)))
  let ps : List Piece := [.lexeme (word "T"), .lexeme (mark "="), .lexeme (word "string")]
  have hform : ParameterForms true ps := .one (.defaulted (x := "T") .none htype)
  let ms := [mark "<", word "T", mark "=", word "string", mark ">"]
  have hmerges : Merges (inAngles ps) ms := .lexeme (.lexeme (.lexeme (.lexeme (.one .nil))))
  obtain ⟨t, us, hlex, ht, hlexemes, hshape⟩ := exists_cons_of_tokenize "<T = string>(x: T) => x" (mark "<")
    (ms.tail ++ [mark "(", word "x", mark ":", word "T", mark ")", mark "=>", word "x"]) (by cbv)
  have hsame : lexemes (t :: us) = (ms.map typed).map Sym.lexeme ++
      [mark "(", word "x", mark ":", word "T", mark ")", mark "=>", word "x"] := by
    rw [lexemes_cons_of_not (isTrivia_of_mark ht), ht, hlexemes]
    rfl
  obtain ⟨rest, hw, hrest⟩ := exists_written_of_lexemes (by decide) hshape hsame
  have hcall : headIn (significant rest) ["("] = true := by
    rw [headIn_significant, hrest]
    rfl
  refine ⟨ps, ms, t, us, rest, hform, hmerges, hlex, ht, hw, hcall, ?_, by cbv, by cbv, by cbv⟩
  have hsig : significant (t :: us) = t :: us := significant_cons_of_not (isTrivia_of_mark ht) us
  have hnone := matchAngle_eq_none hform hmerges hw
  rw [hsig] at hnone
  rw [step_of_angle ht, hnone]
  rintro e' hok
  cases hok
  exact List.cons_ne_nil t []

end Erased

end ScriptLoader.Syntax
