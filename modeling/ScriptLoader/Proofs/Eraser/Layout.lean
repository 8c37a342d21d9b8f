import Mathlib
import ScriptLoader.Error
import ScriptLoader.Proofs.Core.BareTypes
import ScriptLoader.Proofs.Eraser.Moves
import ScriptLoader.Proofs.Lexer.Meaning

/-!
# The layout of a source

Of blank space the eraser looks at nothing but whether it breaks a line. Two sources without slashes whose tokens agree apart from that
are refused for the same fault, or the same tokens of them are kept (`erase_same_layout`): the walk over the bare tokens is the walk
over the tokens, made bare (`walk_bare`).
-/

namespace ScriptLoader.Syntax.Eraser

/-- The state with all its tokens bare, and without the lines of its specifiers. -/
def bare (e : Eraser) : Eraser :=
  { e with
    passed := bares e.passed
    rest := bares e.rest
    kept := bares e.kept
    specifiers := e.specifiers.map fun s => ⟨s.text, Position.first.line⟩ }

@[simp] theorem bare_frame (e : Eraser) : e.bare.frame = e.frame := by cases e; rfl

@[simp] theorem bare_classAhead (e : Eraser) : e.bare.classAhead = e.classAhead := by cases e; rfl

/-! ## What was kept last -/

section Views

variable (e : Eraser)

theorem headText_significant_bares (ts : List Token) : headText (significant (bares ts)) = headText (significant ts) := by
  rw [significant_bares]
  rcases significant_cases ts with ⟨hnil, -⟩ | ⟨t, us, hcons, ht, -⟩
  · rw [hnil]
    rfl
  · rw [hcons]
    exact congrArg some (Token.bare_text (Token.kind_ne_blank ht))

theorem any_breaksLine_bares (ts : List Token) :
    ((bares ts).takeWhile Token.isTrivia).any Token.breaksLine = (ts.takeWhile Token.isTrivia).any Token.breaksLine := by
  have htrivia : Token.isTrivia ∘ Token.bare = Token.isTrivia := funext Token.bare_isTrivia
  have hbreaks : Token.breaksLine ∘ Token.bare = Token.breaksLine := funext Token.bare_breaksLine
  rw [bares, List.takeWhile_map, List.any_map, htrivia, hbreaks]

@[simp] theorem keptMeaning_bare : e.bare.keptMeaning = bares e.keptMeaning := significant_bares e.kept

@[simp] theorem previousText_bare : e.bare.previousText = e.previousText := headText_significant_bares e.kept

@[simp] theorem previousText₂_bare : e.bare.previousText₂ = e.previousText₂ := by
  rw [previousText₂, keptMeaning_bare, bares_tail, headText_significant_bares, previousText₂]

@[simp] theorem brokeLine_bare : e.bare.brokeLine = e.brokeLine := any_breaksLine_bares e.kept

@[simp] theorem brokeLineBefore_bare : e.bare.brokeLineBefore = e.brokeLineBefore := by
  rw [brokeLineBefore, brokeLineBefore, keptMeaning_bare]
  cases e.keptMeaning with
  | nil => rfl
  | cons t ts =>
    simp only [bares_cons]
    rw [any_breaksLine_bares, significant_bares, bares, List.isEmpty_map]

@[simp] theorem atStatementStart_bare : e.bare.atStatementStart = e.atStatementStart := by
  rw [atStatementStart, atStatementStart, previousText_bare, brokeLine_bare]

@[simp] theorem expressionEnded_bare : e.bare.expressionEnded = e.expressionEnded := by
  rw [expressionEnded, expressionEnded, keptMeaning_bare]
  cases e.keptMeaning with
  | nil => rfl
  | cons t ts => simp (disch := decide) only [bares_cons, Token.bare_kind, Token.bare_isLiteral, Token.contains_bare_text]

@[simp] theorem marksOptional_bare (next : List Token) : e.bare.marksOptional (bares next) = e.marksOptional next := by
  simp (disch := decide) only [marksOptional, keptMeaning_bare, previousText₂_bare, brokeLineBefore_bare, headIsName_bares, headIn_bares]
  rfl

@[simp] theorem assertsNonNull_bare : e.bare.assertsNonNull = e.assertsNonNull := by
  rw [assertsNonNull, assertsNonNull, expressionEnded_bare, show e.bare.kept = bares e.kept from rfl]
  cases e.kept with
  | nil => rfl
  | cons t ts => simp only [bares_cons, Token.bare_isTrivia]

@[simp] theorem annotates_bare : e.bare.annotates = e.annotates := by
  rw [annotates, annotates, keptMeaning_bare, previousText₂_bare]
  cases e.keptMeaning with
  | nil => rfl
  | cons t ts =>
    simp (disch := decide) only [bares_cons, Token.bare_kind, Token.bare_text_eq]
    rfl

@[simp] theorem isTypeParameterList_bare (after : List Token) :
    e.bare.isTypeParameterList (bares after) = e.isTypeParameterList after := by
  simp (disch := decide) only [isTypeParameterList, keptMeaning_bare, previousText₂_bare, headIsName_bares, headIn_bares]
  rfl

theorem importsType_bare (ts : List Token) : importsType (bares ts) = importsType ts := by
  simp (disch := decide) only [importsType, significant_bares, bares_tail, headIn_bares, headIsName_bares]

end Views

/-! ## Moves -/

section Moves

variable {e : Eraser} {t : Token} {ts : List Token}

theorem take_bares (t : Token) (ts rest : List Token) :
    ((t.bare :: bares ts).take ((t.bare :: bares ts).length - (bares rest).length)).reverse =
      bares ((t :: ts).take ((t :: ts).length - rest.length)).reverse := by
  rw [← bares_cons]
  simp only [bares, List.length_map, List.map_take, List.map_reverse]

theorem skipTo_bare {r : Tail (t :: ts)} {s : Tail (t.bare :: bares ts)} (h : s.tokens = bares r.tokens) :
    (skipTo e.bare s).1 = (skipTo e r).1.bare := by
  simp only [skipTo, bare, h, take_bares, bares_append]

/-- What is skipped alike is left behind alike. -/
theorem outcome_skipTo_bare {α β : Type} {x : Except Refusal α} {y : Except Refusal β} {f : α → List Token} {g : β → List Token}
    (h : outcome g y = bareOutcome (outcome f x)) (e : Eraser) {r : α → Tail (t :: ts)} {s : β → Tail (t.bare :: bares ts)}
    (hr : ∀ a, (r a).tokens = f a) (hs : ∀ b, (s b).tokens = g b) :
    outcome (·.1) (y.map fun b => skipTo e.bare (s b)) = outcome (·.1.bare) (x.map fun a => skipTo e (r a)) := by
  rw [outcome_map, outcome_map]
  exact outcome_eq_of_bare h fun a b hrest => skipTo_bare (by rw [hr, hs, hrest])

/-- The walk goes on at `rest`, and all of `ts` that stands before that is kept. -/
def keptTo (e : Eraser) (ts rest : List Token) : Eraser :=
  { e with
    passed := (ts.take (ts.length - rest.length)).reverse ++ e.passed
    rest
    kept := (ts.take (ts.length - rest.length)).reverse ++ e.kept }

theorem keptTo_bare (rest : List Token) : keptTo e.bare (t.bare :: bares ts) (bares rest) = (keptTo e (t :: ts) rest).bare := by
  simp only [keptTo, bare, take_bares, bares_append]

theorem dropBlanks_bare : e.bare.dropBlanks = e.dropBlanks.bare := by
  have hblank : (fun t : Token => t.kind == .blank) ∘ Token.bare = fun t => t.kind == .blank := funext fun t => by simp
  simp only [dropBlanks, bare, bares, List.dropWhile_map, hblank]

theorem retractExport_bare : e.bare.retractExport = e.retractExport.bare := by
  rw [retractExport, retractExport, previousText_bare]
  split
  · rw [keptMeaning_bare, bares_tail]
    rfl
  · rfl

theorem noteWord_bare (word : String) (next : List Token) : e.bare.noteWord word (bares next) = (e.noteWord word next).bare := by
  simp (disch := decide) only [noteWord, headIsName_bares, headIn_bares]
  split
  · rfl
  split
  · rfl
  split <;> rfl

theorem onTrivia_bare : (onTrivia e.bare t.bare (bares ts)).1 = (onTrivia e t ts).1.bare := by
  simp only [onTrivia, Token.bare_kind]
  split
  · rename_i hkind
    rw [Token.bare_text (by rw [hkind]; decide)]
    split <;> rfl
  · rfl

end Moves

/-! ## Steps -/

section Handlers

variable {e : Eraser} {t : Token} {ts : List Token}

theorem outcome_copyImport {β : Type} (f : Eraser → β) : outcome (fun e' => f e'.1) (copyImport e (t :: ts)) =
    if t.text = "=" then .error (.unsupported "import = require()")
    else if t.kind = .string then .ok (f ((keep e t ts).1.note (unquoted t.text) t.position.line))
    else outcome (fun e' => f e'.1) (copyImport (keep e t ts).1 ts) := by
  rw [copyImport]
  split
  · rfl
  simp only
  split
  · rfl
  · cases copyImport (keep e t ts).1 ts <;> rfl

theorem copyImport_bare (e : Eraser) (ts : List Token) :
    outcome (·.1) (copyImport e.bare (bares ts)) = outcome (·.1.bare) (copyImport e ts) := by
  induction ts generalizing e with
  | nil => rfl
  | cons t ts ih =>
    rw [bares_cons, outcome_copyImport fun e => e, outcome_copyImport bare]
    simp (disch := decide) only [Token.bare_text_eq, Token.bare_kind]
    split
    · rfl
    split
    · rename_i hkind
      rw [Token.bare_text (by rw [hkind]; decide)]
      rfl
    · exact ih (keep e t ts).1

/-- What is kept of an export ends with the module specifier, if there is one, and else with the clause. -/
theorem outcome_copyExport {β : Type} (f : Eraser → β) : outcome (fun e' => f e'.1) (copyExport e t ts) =
    (left (skipExportClause ts)).map fun r =>
      match significant (significant r).tail with
      | name :: us =>
        if headIn (significant r) ["from"] && name.kind = .string then
          f (keptTo (e.note (unquoted name.text) name.position.line) (t :: ts) us)
        else f (keptTo e (t :: ts) r)
      | [] => f (keptTo e (t :: ts) r) := by
  rw [copyExport]
  cases skipExportClause ts with
  | error r => rfl
  | ok r =>
    simp only
    split
    · rename_i name us hname
      have hname' : significant (significant r.tokens).tail = name :: us := hname
      simp only [left, outcome_ok, Except.map, hname']
      split <;> rename_i hfrom
      · exact congrArg Except.ok (if_pos hfrom).symm
      · exact congrArg Except.ok (if_neg hfrom).symm
    · rename_i hnil
      have hnil' : significant (significant r.tokens).tail = [] := hnil
      simp only [left, outcome_ok, Except.map, hnil']
      rfl

theorem copyExport_bare : outcome (·.1) (copyExport e.bare t.bare (bares ts)) = outcome (·.1.bare) (copyExport e t ts) := by
  rw [outcome_copyExport fun e => e, outcome_copyExport bare, skipExportClause_bare]
  cases left (skipExportClause ts) with
  | error f => rfl
  | ok r =>
    refine congrArg Except.ok ?_
    simp (disch := decide) only [significant_bares, bares_tail, headIn_bares, keptTo_bare]
    cases significant (significant r).tail with
    | nil => rfl
    | cons name us =>
      simp only [bares_cons, Token.bare_kind]
      split <;> rename_i hname
      · simp only [Bool.and_eq_true, decide_eq_true_eq] at hname
        rw [Token.bare_text (by rw [hname.2]; decide)]
        exact keptTo_bare (e := e.note (unquoted name.text) name.position.line) us
      · rfl

/-- A declaration is skipped or copied as a whole, whatever its layout. That the token has its text says that it is no blank space. -/
theorem onStatement_bare (ht : t.bare.text = t.text) :
    outcome (Option.map (·.1)) (onStatement e.bare t.bare (bares ts)) = outcome (Option.map (·.1.bare)) (onStatement e t ts) := by
  have hfound {α β : Type} {x : Except Refusal α} {y : Except Refusal β} {f : α → Next (t :: ts)} {g : β → Next (t.bare :: bares ts)}
      (h : outcome (·.1) (y.map g) = outcome (·.1.bare) (x.map f)) :
      outcome (Option.map (·.1)) (y.map fun b => some (g b)) = outcome (Option.map (·.1.bare)) (x.map fun a => some (f a)) := by
    have hsome := congrArg (Except.map some) h
    rw [map_outcome, map_outcome, outcome_map, outcome_map] at hsome
    rw [outcome_map, outcome_map]
    exact hsome
  have halias : left (skipTypeAlias (Rest.whole (bares ts)).significant.tail.tokens) =
      bareOutcome (left (skipTypeAlias (Rest.whole ts).significant.tail.tokens)) := by
    have hnamed : (Rest.whole (bares ts)).significant.tail.tokens = bares (Rest.whole ts).significant.tail.tokens := by
      show (significant (bares ts)).tail = _
      rw [significant_bares, bares_tail]
      rfl
    rw [hnamed]
    exact skipTypeAlias_bare _
  have hmodule : some (skipTo e.bare ((skipModuleStatement 0 (bares ts)).afterHead (t := t.bare))).1 =
      some (skipTo e ((skipModuleStatement 0 ts).afterHead (t := t))).1.bare :=
    congrArg some (skipTo_bare (skipModuleStatement_bare 0 ts))
  unfold onStatement
  simp (disch := decide) only [ht, significant_bares, bares_tail, headIsName_bares, headIn_bares, headKind_bares, importsType_bare,
    retractExport_bare]
  split
  · exact hfound (outcome_skipTo_bare (skipInterface_bare ts) _ (fun _ => rfl) fun _ => rfl)
  split
  · exact hfound (outcome_skipTo_bare halias _ (fun _ => rfl) fun _ => rfl)
  split
  · exact hfound (outcome_skipTo_bare (skipStatement_bare 0 ts) _ (fun _ => rfl) fun _ => rfl)
  split
  · rfl
  split
  · rfl
  split
  · split
    · exact congrArg Except.ok hmodule
    · refine hfound ?_
      rw [outcome_map, outcome_map]
      exact copyImport_bare (keep e t ts).1 ts
  split
  · exact congrArg Except.ok hmodule
  split
  · refine hfound ?_
    rw [outcome_map, outcome_map]
    exact copyExport_bare
  · rfl

theorem onWord_bare (ht : t.bare.text = t.text) :
    outcome (·.1) (onWord e.bare t.bare (bares ts)) = outcome (·.1.bare) (onWord e t ts) := by
  unfold onWord
  simp (disch := decide) only [ht, significant_bares, headIsName_bares, headIn_bares, headKind_bares, previousText_bare, brokeLine_bare,
    expressionEnded_bare, dropBlanks_bare, noteWord_bare, bare_frame, bare_classAhead]
  split
  · rfl
  split
  · exact congrArg Except.ok (skipTo_bare (r := (Tail.ofCons t ts).significant) (significant_bares ts))
  split
  · exact outcome_skipTo_bare (skipType_bare ts) _ (fun _ => rfl) fun _ => rfl
  split
  · exact outcome_skipTo_bare (skipImplemented_bare ts) _ (fun _ => rfl) fun _ => rfl
  · rfl

theorem onIdentifier_bare (ht : t.bare.text = t.text) :
    outcome (·.1) (onIdentifier e.bare t.bare (bares ts)) = outcome (·.1.bare) (onIdentifier e t ts) := by
  unfold onIdentifier
  simp (disch := decide) only [ht, significant_bares, headIn_bares, previousText_bare, atStatementStart_bare, bare_frame]
  split
  · rfl
  split
  · exact outcome_skipTo_bare (skipReceiver_bare ts) _ (fun _ => rfl) fun _ => rfl
  split
  · have hstatement := @onStatement_bare e t ts ht
    generalize onStatement e t ts = x, onStatement e.bare t.bare (bares ts) = y at hstatement
    rcases x with r | _ | a <;> rcases y with s | _ | b <;> try cases hstatement
    · exact congrArg Except.error (Except.error.inj hstatement)
    · exact onWord_bare ht
    · exact congrArg Except.ok (Option.some.inj (Except.ok.inj hstatement))
  · exact onWord_bare ht

theorem onClosing_bare (b : Bracket) (ht : t.bare.text = t.text) :
    outcome (·.1) (onClosing e.bare b t.bare (bares ts)) = outcome (·.1.bare) (onClosing e b t ts) := by
  rw [onClosing, onClosing, show e.bare.outer = e.outer from rfl]
  cases e.outer with
  | nil => simp only [outcome_refuseAt, ht]
  | cons f outer =>
    simp only [ht, bare_frame]
    split <;> rfl

theorem onOpening_bare (b : Bracket) : (onOpening e.bare b t.bare (bares ts)).1 = (onOpening e b t ts).1.bare := by
  simp only [onOpening, previousText_bare]
  rfl

theorem onMark_bare (ht : t.bare.text = t.text) :
    outcome (·.1) (onMark e.bare t.bare (bares ts)) = outcome (·.1.bare) (onMark e t ts) := by
  unfold onMark
  simp (disch := decide) only [ht, significant_bares, marksOptional_bare, assertsNonNull_bare, annotates_bare]
  split
  · split
    · exact congrArg Except.ok (skipTo_bare (r := Tail.ofCons t ts) rfl)
    · rfl
  split
  · exact congrArg Except.ok (skipTo_bare (r := Tail.ofCons t ts) rfl)
  split
  · split
    · exact outcome_skipTo_bare (skipType_bare ts) _ (fun _ => rfl) fun _ => rfl
    · rfl
  split
  · have hangle := closeAngle_bare 0 [] (t :: ts)
    rw [bares_cons] at hangle
    change (matchAngle (t.bare :: bares ts)).map _ = (matchAngle (t :: ts)).map _ at hangle
    cases hr : matchAngle (t :: ts) <;> cases hs : matchAngle (t.bare :: bares ts) <;> rw [hr, hs] at hangle
    · rfl
    · cases hangle
    · cases hangle
    · have hrest := Option.some.inj hangle
      simp only [hrest, significant_bares, isTypeParameterList_bare]
      split
      · exact congrArg Except.ok (skipTo_bare hrest)
      · rfl
  split
  · exact congrArg Except.ok (onOpening_bare _)
  · exact onClosing_bare _ ht
  · split <;> rfl

/-- The step over the bare tokens is the step over the tokens, unless the token may begin a regular expression. -/
theorem step_bare (hslash : t.text ≠ "/" ∧ t.text ≠ "/=") :
    outcome (·.1) (step e.bare t.bare (bares ts)) = outcome (·.1.bare) (step e t ts) := by
  unfold step
  simp only [Token.bare_isTrivia, Token.bare_kind]
  split
  · exact congrArg Except.ok onTrivia_bare
  rename_i htrivia
  have ht := Token.bare_text (Token.kind_ne_blank (Bool.eq_false_iff.mpr htrivia))
  split
  · exact onIdentifier_bare ht
  split
  · have hmark (t : Token) (h : t.text ≠ "/" ∧ t.text ≠ "/=") (e : Eraser) (ts : List Token) : onPunctuation e t ts = onMark e t ts := by
      rw [onPunctuation, if_neg (by simp [h])]
    rw [hmark t hslash, hmark t.bare (by rwa [ht])]
    exact onMark_bare ht
  · rfl

end Handlers

/-! ## The walk -/

section Walk

variable {e : Eraser}

/-- No regular expression is put together, so what is left of the tokens is left of the source. -/
theorem rest_suffix_of_step {t : Token} {ts : List Token} {e' : Next (t :: ts)} (hrest : e.rest = t :: ts)
    (hslash : t.text ≠ "/" ∧ t.text ≠ "/=") (h : step e t ts = .ok e') : e'.1.rest <:+ e.rest := by
  rcases moves_or_splices (.intro hrest h) with ⟨taken, htaken, -⟩ | ⟨t', ts', _, hrest', hslash', -⟩
  · exact ⟨taken, htaken.symm⟩
  · obtain ⟨rfl, -⟩ := List.cons.inj (hrest.symm.trans hrest')
    exact absurd hslash' (not_or.mpr hslash)

theorem outcome_locate {β : Type} (f : Eraser → β) (x : Except Refusal Eraser) : outcome f (x.mapError e.locate) = outcome f x := by
  cases x with
  | ok e' => rfl
  | error r =>
    refine congrArg Except.error ?_
    unfold locate
    split <;> rfl

theorem finish_bare : outcome id (finish e.bare) = outcome bare (finish e) := by
  rw [finish, finish, bare_frame]
  split <;> rfl

/-- The walk over the bare tokens is the walk over the tokens, made bare. A slash would bring text back that is lexed again. -/
theorem walk_bare (hslash : ∀ t ∈ e.rest, t.text ≠ "/" ∧ t.text ≠ "/=") : outcome id (walk e.bare) = outcome bare (walk e) := by
  fun_induction walk e with
  | case1 e hrest =>
    rw [walk_of_nil (show e.bare.rest = [] from congrArg bares hrest), outcome_locate, outcome_locate]
    exact finish_bare
  | case2 e t ts hrest r hr =>
    have hstep := @step_bare e t ts (hslash t (hrest ▸ List.mem_cons_self))
    rw [hr] at hstep
    obtain ⟨s, hs, hfault⟩ := outcome_eq_error_iff.mp hstep
    have hrest' : e.bare.rest = t.bare :: bares ts := congrArg bares hrest
    rw [walk_of_error hrest' hs]
    calc outcome id (.error (e.bare.locate s)) = .error s.fault := outcome_locate id (.error s)
      _ = .error r.fault := congrArg Except.error hfault
      _ = outcome bare (.error (e.locate r)) := (outcome_locate bare (.error r)).symm
  | case3 e t ts hrest e₁ he₁ _ ih =>
    have hslash' := hslash t (hrest ▸ List.mem_cons_self)
    have hstep := @step_bare e t ts hslash'
    rw [he₁] at hstep
    obtain ⟨s, hs, hnext⟩ := outcome_eq_ok_iff.mp hstep
    have hrest' : e.bare.rest = t.bare :: bares ts := congrArg bares hrest
    have hsuffix := rest_suffix_of_step hrest hslash' he₁
    rw [walk_of_ok hrest' hs, hnext]
    -- no step puts a slash in front of the walk
    exact ih fun u hu => hslash u (hsuffix.subset hu)

end Walk

end Eraser

/-! ## Sources that agree -/

/-- The tokens agree in class and text, or both are blank space and agree on whether it breaks a line. -/
def SameButLayout (t t' : Token) : Prop := t.kind = t'.kind ∧ (t.text = t'.text ∨ t.kind = .blank ∧ t.breaksLine = t'.breaksLine)

instance : DecidableRel SameButLayout := fun _ _ => inferInstanceAs (Decidable (_ ∧ _))

theorem SameButLayout.bare_eq {t t' : Token} (h : SameButLayout t t') (ht : t.Shaped) (ht' : t'.Shaped) : t.bare = t'.bare := by
  obtain ⟨hkind, htext | ⟨hblank, hbreaks⟩⟩ := h
  · rw [Token.bare, Token.bare, Token.breaksLine, Token.breaksLine, hkind, htext]
  · have hblank' := hkind ▸ hblank
    simp only [Token.Shaped, hblank, hblank', Shape] at ht ht'
    have hall : isBlankText t.text = true := List.all_eq_true.mpr ht.2
    have hall' : isBlankText t'.text = true := List.all_eq_true.mpr ht'.2
    simp only [Token.bare, hblank, hblank', hall, hall', hbreaks, and_self, if_true]

theorem bares_eq_of_same {ts ts' : List Token} (h : List.Forall₂ SameButLayout ts ts') (hshaped : ∀ t ∈ ts, t.Shaped)
    (hshaped' : ∀ t ∈ ts', t.Shaped) : bares ts = bares ts' := by
  induction h with
  | nil => rfl
  | cons ht _ ih =>
    obtain ⟨hhead, htail⟩ := List.forall_mem_cons.mp hshaped
    obtain ⟨hhead', htail'⟩ := List.forall_mem_cons.mp hshaped'
    rw [bares_cons, bares_cons, ht.bare_eq hhead hhead', ih htail htail']

/-- Nothing but layout is lost of what bare tokens say. -/
theorem lexemes_bares (ts : List Token) : lexemes (bares ts) = lexemes ts := by
  induction ts with
  | nil => rfl
  | cons t ts ih =>
    rw [bares_cons]
    cases ht : t.isTrivia with
    | true => rw [lexemes_cons_of_trivia (t.bare_isTrivia.trans ht), lexemes_cons_of_trivia ht, ih]
    | false =>
      rw [lexemes_cons_of_not (t.bare_isTrivia.trans ht), lexemes_cons_of_not ht, ih, Token.lexeme, Token.bare_kind,
        Token.bare_text (Token.kind_ne_blank ht), Token.lexeme]

open Eraser

/-- Take two sources without slashes whose tokens agree but for the layout. Both are refused, for the same fault, or both are erased. Then
the same tokens of them are kept, trivia aside, and they name the same modules. -/
theorem erase_same_layout {content content' : String} {ts ts' : List Token} (hlex : tokenize content.toList 0 .first = .ok ts)
    (hlex' : tokenize content'.toList 0 .first = .ok ts') (hslash : ∀ t ∈ ts, t.text ≠ "/" ∧ t.text ≠ "/=")
    (hslash' : ∀ t ∈ ts', t.text ≠ "/" ∧ t.text ≠ "/=") (hsame : List.Forall₂ SameButLayout ts ts') :
    (∃ r r', erase content = .error r ∧ erase content' = .error r' ∧ r.fault = r'.fault ∧
        (Cause.ofFault r.fault).code = (Cause.ofFault r'.fault).code) ∨
      ∃ e e', walk (start ts) = .ok e ∧ walk (start ts') = .ok e' ∧
        erase content = .ok ⟨e.output, e.specifiers.reverse⟩ ∧ erase content' = .ok ⟨e'.output, e'.specifiers.reverse⟩ ∧
        lexemes e.kept.reverse = lexemes e'.kept.reverse ∧
        e.specifiers.reverse.map (·.text) = e'.specifiers.reverse.map (·.text) := by
  have hbares : bares ts = bares ts' :=
    bares_eq_of_same hsame (shaped_of_lexFrom (lexFrom_of_tokenize hlex)) (shaped_of_lexFrom (lexFrom_of_tokenize hlex'))
  have hstart : (start ts).bare = (start ts').bare := by simp only [start, bare, hbares]
  have hwalk : outcome bare (walk (start ts)) = outcome bare (walk (start ts')) := by
    rw [← walk_bare hslash, ← walk_bare hslash', hstart]
  have herase : erase content = (walk (start ts)).map fun e => ⟨e.output, e.specifiers.reverse⟩ := by rw [erase, hlex]
  have herase' : erase content' = (walk (start ts')).map fun e => ⟨e.output, e.specifiers.reverse⟩ := by rw [erase, hlex']
  rw [herase, herase']
  cases hw : walk (start ts) with
  | error r =>
    rw [hw] at hwalk
    obtain ⟨r', hw', hfault⟩ := outcome_eq_error_iff.mp hwalk.symm
    rw [hw']
    exact .inl ⟨r, r', rfl, rfl, hfault.symm, by rw [hfault]⟩
  | ok e =>
    rw [hw] at hwalk
    obtain ⟨e', hw', hsame'⟩ := outcome_eq_ok_iff.mp hwalk.symm
    rw [hw']
    refine .inr ⟨e, e', rfl, rfl, rfl, rfl, ?_, ?_⟩
    · have hkept := congrArg (fun e => lexemes e.kept) hsame'
      simp only [bare, lexemes_bares] at hkept
      rw [lexemes_reverse, lexemes_reverse, hkept]
    · have htexts := congrArg (fun e => e.specifiers.map (·.text)) hsame'
      simp only [bare, List.map_map] at htexts
      rw [List.map_reverse, List.map_reverse]
      exact congrArg List.reverse htexts.symm

/-- A declaration and a cast on other columns: the line break that ends the declaration is all that counts. -/
theorem erase_same_layout_indented :
    erase "declare a\n b as  T" = .ok ⟨"\n b", []⟩ ∧ erase "declare\ta \n\nb as T" = .ok ⟨" \n\nb", []⟩ ∧
      ∃ ts ts' e e', tokenize "declare a\n b as  T".toList 0 .first = .ok ts ∧
        tokenize "declare\ta \n\nb as T".toList 0 .first = .ok ts' ∧ List.Forall₂ SameButLayout ts ts' ∧
        walk (start ts) = .ok e ∧ walk (start ts') = .ok e' ∧ lexemes e.kept.reverse = lexemes e'.kept.reverse := by
  have hlex : tokenize "declare a\n b as  T".toList 0 .first = .ok [⟨.identifier, "declare", 0, ⟨1, 1⟩⟩, ⟨.blank, " ", 7, ⟨1, 8⟩⟩,
      ⟨.identifier, "a", 8, ⟨1, 9⟩⟩, ⟨.blank, "\n ", 9, ⟨1, 10⟩⟩, ⟨.identifier, "b", 11, ⟨2, 2⟩⟩, ⟨.blank, " ", 12, ⟨2, 3⟩⟩,
      ⟨.identifier, "as", 13, ⟨2, 4⟩⟩, ⟨.blank, "  ", 15, ⟨2, 6⟩⟩, ⟨.identifier, "T", 17, ⟨2, 8⟩⟩] := by cbv
  have hlex' : tokenize "declare\ta \n\nb as T".toList 0 .first = .ok [⟨.identifier, "declare", 0, ⟨1, 1⟩⟩, ⟨.blank, "\t", 7, ⟨1, 8⟩⟩,
      ⟨.identifier, "a", 8, ⟨1, 9⟩⟩, ⟨.blank, " \n\n", 9, ⟨1, 10⟩⟩, ⟨.identifier, "b", 12, ⟨3, 1⟩⟩, ⟨.blank, " ", 13, ⟨3, 2⟩⟩,
      ⟨.identifier, "as", 14, ⟨3, 3⟩⟩, ⟨.blank, " ", 16, ⟨3, 5⟩⟩, ⟨.identifier, "T", 17, ⟨3, 6⟩⟩] := by cbv
  have herase : erase "declare a\n b as  T" = .ok ⟨"\n b", []⟩ := by cbv
  have herase' : erase "declare\ta \n\nb as T" = .ok ⟨" \n\nb", []⟩ := by cbv
  rcases erase_same_layout hlex hlex' (by decide) (by decide) (by decide) with ⟨r, _, hr, -⟩ | ⟨e, e', hw, hw', -, -, hkept, -⟩
  · cases herase.symm.trans hr
  · exact ⟨herase, herase', _, _, e, e', hlex, hlex', by decide, hw, hw', hkept⟩

end ScriptLoader.Syntax
