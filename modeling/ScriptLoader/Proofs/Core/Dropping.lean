import ScriptLoader.Proofs.Core.Keeping
import ScriptLoader.Proofs.Core.SkipDeclaration
import ScriptLoader.Proofs.Eraser.Growth

/-!
# Type syntax that is erased

What the eraser does at the type syntax of a core program. Each piece is erased in one step, where the view shows what the piece needs.
-/

namespace ScriptLoader.Syntax

open Eraser

section Dropped

variable {v : View} {ss : List Sym} {rest : List Token}

theorem View.after_map_typed (v : View) (ms : List Lexeme) (rest : List Token) : v.after (ms.map typed) rest = v.before rest := by
  rw [View.after, said_map_typed]
  rfl

theorem goes_annotated {bare greedy : Bool} {ms : List Lexeme} (hw : Written (typedMark ":" :: ms.map typed) v.rest rest)
    (h : TypeText .whole bare greedy ms) (hend : EndsBefore .whole bare greedy rest) (hplace : v.AwaitsType) :
    Goes v (v.after (typedMark ":" :: ms.map typed) rest) := by
  obtain ⟨t, us, _, _, _, hs, hrest, hgo⟩ := goes_to_symbol hw
  obtain ⟨hkind, htext⟩ := lexeme_eq_mark hs
  obtain ⟨r, hr, hleft⟩ := skipType_of_text h hrest hend
  rw [show typedMark ":" :: ms.map typed = (mark ":" :: ms).map typed from rfl, View.after_map_typed]
  refine hgo _ fun e he => ⟨skipTo e r.toRest.afterHead, ?_,
    he.skip _ r.toRest.afterHead hleft v.said he.said (List.Sublist.refl _) rfl rfl rfl rfl id⟩
  have hannotates : e.annotates = true := he.annotates_eq_true hplace
  rw [step_of_other hkind (by rw [htext]; decide), onMark, if_neg (by rw [htext]; decide), htext, hannotates, hr]
  rfl

/-- What makes a list in angle brackets one of type arguments or parameters. -/
def View.ListsTypes (v : View) (rest : List Token) : Prop :=
  (lexemes rest).head? = some (mark "(") ∨
    (∃ x, v.said.head? = some (word x) ∧ v.said.tail.head? = some (word "class")) ∨
    (v.ahead = true ∧ v.said.tail.head?.map (·.2) = some "extends")

/-- An opening angle bracket is erased with its list, where the tokens read like one and it stands where types are listed. -/
theorem step_of_angle {e : Eraser} {t : Token} {ts : List Token} (ht : t.lexeme = mark "<") :
    step e t ts = match matchAngle (t :: ts) with
      | some r => if e.isTypeParameterList (significant r.tokens) then .ok (skipTo e r) else .ok (keep e t ts)
      | none => .ok (keep e t ts) := by
  obtain ⟨hkind, htext⟩ := lexeme_eq_mark ht
  rw [step_of_other hkind (by rw [htext]; decide), onMark, if_neg (by rw [htext]; decide), decide_eq_false (by rw [htext]; decide),
    Bool.false_and, if_neg (by decide), if_neg (by rw [htext]; decide)]
  exact if_pos htext

/-- A list in angle brackets that the eraser finds the end of. -/
theorem goes_angles {ms : List Lexeme} (hw : Written ((mark "<" :: ms).map typed) v.rest rest)
    (hfinds : Finds (matchAngle (significant v.rest)) rest) (hplace : v.ListsTypes rest) :
    Goes v (v.after ((mark "<" :: ms).map typed) rest) := by
  obtain ⟨t, us, hsignificant, _, _, hs, hrest, hgo⟩ := goes_to_symbol hw
  rw [hsignificant] at hfinds
  obtain ⟨r, hr, hleft⟩ := hfinds
  rw [View.after_map_typed]
  refine hgo _ fun e he => ⟨skipTo e r, ?_, he.skip _ r hleft v.said he.said (List.Sublist.refl _) rfl rfl rfl rfl id⟩
  have hlist : e.isTypeParameterList (significant r.tokens) = true := by
    rw [isTypeParameterList, hleft, headIn_significant, he.headIsName, he.previousText₂, Bool.or_eq_true, Bool.or_eq_true]
    rcases hplace with hcall | ⟨x, hx, hclass⟩ | ⟨hahead, hextends⟩
    · rw [hcall]
      exact Or.inl (Or.inl rfl)
    · rw [show (v.before (t :: us)).said = v.said from rfl, hx, hclass]
      exact Or.inl (Or.inr rfl)
    · rw [show (v.before (t :: us)).said = v.said from rfl, hextends, he.ahead, show (v.before (t :: us)).ahead = v.ahead from rfl, hahead]
      exact Or.inr rfl
  rw [step_of_angle hs, hr]
  exact if_pos hlist

theorem goes_arguments {ms : List Lexeme} (hw : Written (ms.map typed) v.rest rest) (h : TypeArguments ms)
    (hplace : v.ListsTypes rest) : Goes v (v.after (ms.map typed) rest) := by
  obtain ⟨hfinds, _⟩ := matchAngle_of_arguments h hw
  obtain ⟨_, hmerges⟩ := h
  cases hmerges
  exact goes_angles hw hfinds hplace

/-- An exclamation mark right behind an expression asserts that it is not null. -/
theorem goes_assertion (hw : Written (assertion :: ss) v.rest rest) (htight : v.tight = true) (hended : ended v.said = true) :
    ∃ us, Written ss us rest ∧ Goes v (v.after [assertion] us).tightly := by
  obtain ⟨blanks, t, us, hv, _, hglued, _, _, hs, hrest⟩ := hw.uncons
  rw [hglued rfl, List.nil_append] at hv
  obtain ⟨hkind, htext⟩ := lexeme_eq_mark hs
  refine ⟨us, hrest, Goes.step hv fun e he => ⟨skipTo e (Tail.ofCons t us), ?_, ?_⟩⟩
  · obtain ⟨p, ps, hkept, hcode⟩ := he.tight htight
    have hasserts : e.assertsNonNull = true := by
      rw [assertsNonNull, hkept]
      show (!p.isTrivia && e.expressionEnded) = true
      rw [hcode, he.expressionEnded, hended]
      rfl
    rw [step_of_other hkind (by rw [htext]; decide), onMark, if_neg (by rw [htext]; decide), htext, hasserts]
    rfl
  · refine ⟨he.said, he.shaped, he.frame, he.outer, he.ahead, rfl, he.closed, fun _ => he.tight htight, ?_⟩
    have hsource := he.source
    rw [he.rest, hv] at hsource
    exact ((List.Sublist.refl e.kept.reverse).append (List.sublist_cons_self t us)).trans hsource

/-- A question mark that marks a parameter or a field as optional. -/
theorem goes_optional {x : String} (hw : Written (typedMark "?" :: ss) v.rest rest) (hx : v.said.head? = some (word x))
    (hplace : v.frame.isRound = true ∧ beforeParameter (v.said.tail.head?.map (·.2)) = true ∧
        (∀ us, Written ss us rest → headIn (significant us) [":", ",", ")", "="] = true) ∨
      v.frame.isRound = false ∧ v.frame.classBody = true ∧ afterMember (v.said.tail.head?.map (·.2)) = true ∧
        ∀ us, Written ss us rest → headIn (significant us) [":", ";", "=", "("] = true) :
    ∃ us, Written ss us rest ∧ Goes v (v.after [typedMark "?"] us) := by
  obtain ⟨t, us, _, _, _, hs, hrest, hgo⟩ := goes_to_symbol hw
  obtain ⟨hkind, htext⟩ := lexeme_eq_mark hs
  refine ⟨us, hrest, hgo _ fun e he => ⟨skipTo e (Tail.ofCons t us), ?_,
    he.skip _ (Tail.ofCons t us) rfl v.said he.said (List.Sublist.refl _) rfl rfl rfl rfl id⟩⟩
  have hoptional : e.marksOptional (significant us) = true := by
    have hframe : e.frame = v.frame := he.frame
    rw [marksOptional, he.headIsName, he.previousText₂, hframe, show (v.before (t :: us)).said = v.said from rfl, hx]
    rcases hplace with ⟨hround, hbefore, hnext⟩ | ⟨hround, hbody, hbefore, hnext⟩
    · rw [hround, hbefore, hnext us hrest]
      rfl
    · rw [hround, hbody, hbefore, hnext us hrest]
      rfl
  rw [step_of_other hkind (by rw [htext]; decide), onMark, if_pos htext, hoptional]
  rfl

/-! ### Words -/

/-- What stands before the next token is the same with and without trivia behind it. -/
theorem written_significant {s : Sym} {us : List Token} (hw : Written (s :: ss) us rest) : Written (s :: ss) (significant us) rest := by
  obtain ⟨t, us', hsignificant, ht, hshape, hs, hrest⟩ := hw.significant
  rw [hsignificant]
  exact .token ht hshape hs hrest

/-- Type syntax behind a blank takes the blank with it. -/
theorem View.At.skipDropping {e : Eraser} {ts : List Token} (h : (v.before ts).At e) (r : Tail ts) (hleft : r.tokens = rest) :
    (v.before rest).At (skipTo e.dropBlanks r).1 :=
  h.skip e.dropBlanks r hleft v.said ((lexemes_dropBlanks e.kept).trans h.said)
    (List.dropWhile_sublist _) rfl rfl rfl rfl id

/-- What the eraser looks at behind `as` and `satisfies`. -/
theorem beginsCast_of_written {m : Lexeme} {ms : List Lexeme} {us : List Token} (hw : Written ((m :: ms).map typed) us rest) :
    (headIsName (significant us) || headKind (significant us) = some .string || headIn (significant us) ["\x7b", "(", "["]) =
      beginsCast (m :: ms) := by
  have hw : Written (typed m :: ms.map typed) us rest := hw
  rw [headIsName_of_written hw, headKind_of_written hw, headIn_of_written hw, Bool.eq_iff_iff]
  simp only [beginsCast, typed, List.head?_cons, Option.any_some, Bool.or_eq_true, beq_iff_eq, decide_eq_true_eq, Option.some.injEq]

/-- `as` and `satisfies` are erased with a type behind an expression, and kept elsewhere. -/
theorem step_of_cast {e : Eraser} {t : Token} {us : List Token} {as : String} (ht : t.lexeme = word as) (has : as ∈ ["as", "satisfies"])
    (hpoint : e.previousText ≠ some ".") (hpoint' : e.previousText ≠ some "?.") :
    step e t us =
      if e.expressionEnded &&
          (headIsName (significant us) || headKind (significant us) = some .string || headIn (significant us) ["\x7b", "(", "["]) then
        (skipType us).map fun r => skipTo e.dropBlanks r.toRest.afterHead
      else .ok (keep e t us) := by
  obtain ⟨hkind, htext⟩ := lexeme_eq_word ht
  have hwords : ∀ as ∈ ["as", "satisfies"], as ≠ "this" ∧ as ∉ statementWords ∧ as ≠ "const" ∧ as ≠ "implements" ∧ as ≠ "class" ∧
      as ≠ "case" ∧ memberModifiers.contains as = false ∧ declarationWords.contains as = false ∧
      (as = "as" || as = "satisfies") = true := by decide
  obtain ⟨hthis, hstatement, hconst, himplements, hclass, hcase, hmodifier, hdeclares, hcast⟩ := hwords as has
  have hnone := onStatement_eq_none (e := e) us (htext ▸ hstatement) fun hc => absurd (htext ▸ hc) hconst
  have hnote : e.noteWord as (significant us) = e := by
    simp only [noteWord, hdeclares, hclass, hcase, decide_false, Bool.false_and, Bool.false_eq_true, if_false]
  rw [step_of_word hkind (htext ▸ hthis) hpoint hpoint' hnone, onWord, htext, hnote]
  simp only [hmodifier, hcast, himplements, decide_false, Bool.false_and, Bool.true_and, Bool.false_eq_true, if_false]

/-- `as` or `satisfies` with a type behind it that is skipped. -/
theorem goes_cast_of_skip {as : String} {ms : List Lexeme} (hw : Written (typedWord as :: ms.map typed) v.rest rest)
    (has : as ∈ ["as", "satisfies"]) (hskip : ∀ us, Written (ms.map typed) us rest → LeavesTail (skipType us) rest)
    (hbegins : beginsCast ms = true) (hended : ended v.said = true) : Goes v (v.after (typedWord as :: ms.map typed) rest) := by
  obtain ⟨t, us, _, _, _, hs, hrest, hgo⟩ := goes_to_symbol hw
  obtain ⟨r, hr, hleft⟩ := hskip us hrest
  rw [show typedWord as :: ms.map typed = (word as :: ms).map typed from rfl, View.after_map_typed]
  refine hgo _ fun e he => ⟨skipTo e.dropBlanks r.toRest.afterHead, ?_, he.skipDropping r.toRest.afterHead hleft⟩
  obtain ⟨hpoint, hpoint'⟩ := he.no_point hended
  have hended' : e.expressionEnded = true := he.expressionEnded.trans hended
  cases ms with
  | nil => nomatch hbegins
  | cons m ms =>
    rw [step_of_cast hs has hpoint hpoint', hended', beginsCast_of_written hrest, hbegins, hr]
    rfl

/-- `as` or `satisfies` with a type behind it. -/
theorem goes_cast {as : String} {bare greedy : Bool} {ms : List Lexeme} (hw : Written (typedWord as :: ms.map typed) v.rest rest)
    (has : as ∈ ["as", "satisfies"]) (h : TypeText .whole bare greedy ms) (hbegins : beginsCast ms = true)
    (hend : EndsBefore .whole bare greedy rest) (hended : ended v.said = true) :
    Goes v (v.after (typedWord as :: ms.map typed) rest) :=
  goes_cast_of_skip hw has (fun _ hus => skipType_of_text h hus hend) hbegins hended

/-- A modifier of a member of a class. -/
theorem goes_modifier {name : String} {s : Sym} (hw : Written (typedWord name :: s :: ss) v.rest rest)
    (hname : name ∈ memberModifiers) (hs : s.lexeme.1 = .identifier) (hbody : v.frame.classBody = true)
    (hround : v.frame.isRound = false) (hbefore : ∀ m, v.said.head? = some m → m.2 ∈ ["\x7b", ";", "\x7d", "static"]) :
    ∃ us, Written (s :: ss) us rest ∧ Goes v (v.after [typedWord name] us) := by
  obtain ⟨t, us, _, _, _, ht, hrest, hgo⟩ := goes_to_symbol hw
  obtain ⟨hkind, htext⟩ := lexeme_eq_word ht
  refine ⟨significant us, written_significant hrest, hgo _ fun e he => ⟨skipTo e (Tail.ofCons t us).significant, ?_,
    he.skip _ (Tail.ofCons t us).significant rfl v.said he.said (List.Sublist.refl _) rfl rfl rfl rfl id⟩⟩
  have hwords : ∀ name ∈ memberModifiers, name ≠ "this" ∧ name ∉ statementWords ∧ name ≠ "const" := by decide
  obtain ⟨hthis, hstatement, hconst⟩ := hwords name hname
  have hframe : e.frame = v.frame := he.frame
  have hpoint : e.previousText ≠ some "." := he.previousText_ne_of_mem hbefore (by decide)
  have hpoint' : e.previousText ≠ some "?." := he.previousText_ne_of_mem hbefore (by decide)
  have hafter : afterMember e.previousText = true := by
    rw [he.previousText, show (v.before (t :: us)).said = v.said from rfl]
    cases hsaid : v.said.head? with
    | none => rfl
    | some m => exact List.contains_iff_mem.mpr (hbefore m hsaid)
  have hnext : headIsName (significant us) = true := by rw [headIsName_of_written hrest, hs]; rfl
  have hnone := onStatement_eq_none (e := e) us (htext ▸ hstatement) fun hc => absurd (htext ▸ hc) hconst
  rw [step_of_word hkind (htext ▸ hthis) hpoint hpoint' hnone, onWord, htext, List.contains_iff_mem.mpr hname, hnext, hframe,
    hround, hbody, hafter]
  rfl

/-- The types that a class implements. -/
theorem goes_implements {ms : List Lexeme} (hw : Written (typedWord "implements" :: ms.map typed) v.rest rest) (h : TypeList ms)
    (hend : (lexemes rest).head? = some (mark "\x7b")) (hahead : v.ahead = true)
    (hpoint : ∀ e ts, (v.before ts).At e → e.previousText ≠ some "." ∧ e.previousText ≠ some "?.") :
    Goes v (v.after (typedWord "implements" :: ms.map typed) rest) := by
  obtain ⟨t, us, _, _, _, hs, hrest, hgo⟩ := goes_to_symbol hw
  obtain ⟨hkind, htext⟩ := lexeme_eq_word hs
  obtain ⟨r, hr, hleft⟩ := skipImplemented_of_list h hrest hend
  rw [show typedWord "implements" :: ms.map typed = (word "implements" :: ms).map typed from rfl, View.after_map_typed]
  refine hgo _ fun e he => ⟨skipTo e.dropBlanks r.toRest.afterHead, ?_, he.skipDropping r.toRest.afterHead hleft⟩
  obtain ⟨hpoint, hpoint'⟩ := hpoint e _ he
  have hahead' : e.classAhead = true := he.ahead.trans hahead
  have hnone := onStatement_eq_none (e := e) us (htext ▸ by decide) fun hc => absurd (htext ▸ hc) (by decide)
  rw [step_of_word hkind (htext ▸ by decide) hpoint hpoint' hnone, onWord, htext, hahead', hr]
  rfl

/-! ## Declarations that are erased -/

/-- The view where a declaration was erased, and with it an `export` before it. -/
def View.retracted (v : View) (rest : List Token) : View :=
  ⟨if v.said.head?.map (·.2) = some "export" then v.said.tail else v.said, v.frame, v.outer, v.ahead, rest, false, v.source⟩

theorem View.At.retract {e : Eraser} {ts : List Token} (h : (v.before ts).At e) (r : Tail ts) (hleft : r.tokens = rest)
    (hround : (v.retracted rest).said.head? ≠ some (mark ")")) : (v.retracted rest).At (skipTo e.retractExport r).1 := by
  have hprevious : e.previousText = v.said.head?.map (·.2) := h.previousText
  have hsaid : lexemes e.retractExport.kept = (v.retracted rest).said := by
    rw [lexemes_retractExport, hprevious, h.said]
    rfl
  have hkept : e.retractExport.kept.Sublist e.kept := by
    rw [retractExport]
    split
    · exact (List.tail_sublist _).trans (significant_suffix e.kept).sublist
    · exact List.Sublist.refl _
  have hother : ∃ kept, e.retractExport = { e with kept } := by
    rw [retractExport]
    split
    · exact ⟨_, rfl⟩
    · exact ⟨e.kept, rfl⟩
  obtain ⟨kept, hother⟩ := hother
  exact h.skip e.retractExport r hleft _ hsaid hkept (by rw [hother]) (by rw [hother]) (by rw [hother]) (by rw [hother])
    fun hm => absurd hm hround

/-- A statement may begin behind a semicolon, a curly bracket or `export`. -/
theorem View.At.atStatementStart {e : Eraser} (h : v.At e) (hbefore : ∀ m, v.said.head? = some m → m.2 ∈ boundaries) :
    e.atStatementStart = true := by
  rw [Eraser.atStatementStart, h.previousText]
  cases hsaid : v.said.head? with
  | none => rfl
  | some m =>
    show (boundaries.contains m.2 || e.brokeLine) = true
    rw [List.contains_iff_mem.mpr (hbefore m hsaid), Bool.true_or]

/-- A statement may begin at the next token, which names no member. -/
structure Eraser.BeginsStatement (e : Eraser) : Prop where
  start : e.atStatementStart = true
  point : e.previousText ≠ some "."
  point' : e.previousText ≠ some "?."

/-- A program begins with a statement. -/
theorem Eraser.beginsStatement_start (ts : List Token) : (start ts).BeginsStatement := ⟨rfl, nofun, nofun⟩

/-- A word that begins a statement which is erased as a whole. -/
theorem step_of_statement {e : Eraser} {t : Token} {ts : List Token} {x : Except Refusal (Next (t :: ts))} (h : e.BeginsStatement)
    (hkind : t.kind = .identifier) (hthis : t.text ≠ "this") (hstatement : onStatement e t ts = x.map some) : step e t ts = x := by
  rw [step_of_identifier hkind, onIdentifier, decide_eq_false h.point, decide_eq_false h.point', decide_eq_false hthis, hstatement,
    h.start]
  cases x <;> rfl

theorem step_of_interface {e : Eraser} {t : Token} {us : List Token} (h : e.BeginsStatement) (ht : t.lexeme = word "interface")
    (hnext : headIsName (significant us) = true) :
    step e t us = (skipInterface us).map fun r => skipTo e.retractExport r.afterHead := by
  obtain ⟨hkind, htext⟩ := lexeme_eq_word ht
  refine step_of_statement h hkind (htext ▸ by decide) ?_
  unfold onStatement
  simp only [htext, hnext, decide_true, Bool.true_and, if_true]
  cases skipInterface us <;> rfl

theorem step_of_typeAlias {e : Eraser} {t : Token} {us : List Token} (h : e.BeginsStatement) (ht : t.lexeme = word "type") {x : String}
    {s : Sym} (hw : Written (typedWord x :: s :: ss) us rest) (hs : s.lexeme.2 ∈ ["=", "<"]) :
    ∃ us', Written (s :: ss) us' rest ∧ ∃ f : Rest us' → Tail (t :: us), (∀ r, (f r).tokens = r.tokens) ∧
      step e t us = (skipTypeAlias us').map fun r => skipTo e.retractExport (f r) := by
  obtain ⟨hkind, htext⟩ := lexeme_eq_word ht
  obtain ⟨t₁, us₁, hnext, _, _, _, hrest₁⟩ := hw.significant
  have hname : headIsName (significant us) = true := headIsName_of_written hw
  have htail : ((Rest.whole us).significant.tail).tokens = us₁ := by
    show (significant us).tail = us₁
    rw [hnext, List.tail_cons]
  have hafter : headIn (significant (significant us).tail) ["=", "<"] = true := by
    rw [hnext, List.tail_cons, headIn_of_written hrest₁]
    exact List.contains_iff_mem.mpr hs
  subst htail
  refine ⟨_, hrest₁, fun r => ((Rest.whole us).significant.tail.andThen r).afterHead, fun _ => rfl, ?_⟩
  refine step_of_statement h hkind (htext ▸ by decide) ?_
  unfold onStatement
  simp only [htext, hname, hafter, String.reduceEq, decide_false, decide_true, Bool.false_and, Bool.true_and, Bool.false_eq_true,
    if_false, if_true]
  cases skipTypeAlias ((Rest.whole us).significant.tail).tokens <;> rfl

/-- Behind the name of a type alias stand type parameters or an equals sign. -/
theorem exists_head_of_alias {arguments : List Sym} (h : Arguments arguments) (ss : List Sym) :
    ∃ s others, arguments ++ typedMark "=" :: ss = s :: others ∧ s.lexeme.2 ∈ ["=", "<"] := by
  cases h with
  | none => exact ⟨_, _, rfl, by decide⟩
  | some h =>
    obtain ⟨_, hmerges⟩ := h
    cases hmerges
    exact ⟨_, _, rfl, by decide⟩

theorem View.At.beginsStatement {e : Eraser} (h : v.At e) (hbefore : ∀ m, v.said.head? = some m → m.2 ∈ boundaries) :
    e.BeginsStatement :=
  ⟨h.atStatementStart hbefore, h.previousText_ne_of_mem hbefore (by decide), h.previousText_ne_of_mem hbefore (by decide)⟩

/-- An interface or a type alias. -/
theorem goes_typeDeclaration (h : TypeDeclaration ss) (hw : Written ss v.rest rest)
    (hbefore : ∀ m, v.said.head? = some m → m.2 ∈ boundaries) (hround : (v.retracted rest).said.head? ≠ some (mark ")")) :
    Goes v (v.retracted rest) := by
  cases h with
  | @interface name header body hname hheader hbody =>
    obtain ⟨t, us, _, _, _, ht, hrest, hgo⟩ := goes_to_symbol hw
    obtain ⟨r, hr, hleft⟩ := skipInterface_of_name hheader hbody hrest
    refine hgo _ fun e he => ⟨skipTo e.retractExport r.afterHead, ?_, he.retract r.afterHead hleft hround⟩
    rw [step_of_interface (he.beginsStatement hbefore) ht (headIsName_of_written hrest), hr]
    rfl
  | @typeAlias bare greedy name arguments ms hname harguments hms =>
    obtain ⟨t, us, _, _, _, ht, hrest, hgo⟩ := goes_to_symbol hw
    refine hgo _ fun e he => ?_
    obtain ⟨s, others, hhead, hs⟩ := exists_head_of_alias harguments (ms.map typed ++ [typedMark ";"])
    rw [hhead] at hrest
    obtain ⟨us', hw', f, hf, hstep⟩ := step_of_typeAlias (he.beginsStatement hbefore) ht hrest hs
    have htype : Written (arguments ++ (mark "=" :: (ms ++ [mark ";"])).map typed) us' rest := by
      rw [List.map_cons, List.map_append]
      exact hhead ▸ hw'
    obtain ⟨r, hr, hleft⟩ := skipTypeAlias_of_type harguments hms htype
    refine ⟨skipTo e.retractExport (f r), ?_, he.retract (f r) ((hf r).trans hleft) hround⟩
    rw [hstep, hr]
    rfl

end Dropped

end ScriptLoader.Syntax
