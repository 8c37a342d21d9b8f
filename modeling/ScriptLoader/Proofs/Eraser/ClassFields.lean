import ScriptLoader.Proofs.Core.Grammar
import ScriptLoader.Proofs.Eraser.CopiedTokens

/-!
# Conditions in class fields

A class of fields whose values are names, literals, calls, expressions in round brackets and conditions of these, nested to any depth. In
the body of a class a question mark also marks a member as optional, and the walk takes the question mark of a condition for one where a
name that begins its line stands before it and a round bracket behind it; then the colon of the condition has a type behind it, and an arm
of the condition is lost. Where no condition is laid out so, and no field is called `import`, the class comes out as it is
(`class_copied_iff`).
-/

namespace ScriptLoader.Syntax

open Eraser

/-! ## Expressions -/

mutual

/-- What can be called, or stand before the question mark of a condition. -/
inductive FieldOperand where
  | atom (atom : Atom)
  | call (callee : FieldOperand) (arguments : FieldArguments)
  | round (inner : FieldValue)

/-- The value of a field: an operand, or a condition with its two arms. -/
inductive FieldValue where
  | operand (operand : FieldOperand)
  | choice (condition : FieldOperand) (first second : FieldValue)

/-- The arguments of a call. -/
inductive FieldArguments where
  | nil
  | cons (value : FieldValue) (more : FieldArguments)

end

mutual

def FieldOperand.lexemes : FieldOperand → List Lexeme
  | .atom a => [a.lexeme]
  | .call callee arguments => callee.lexemes ++ mark "(" :: (arguments.lexemes true ++ [mark ")"])
  | .round inner => mark "(" :: (inner.lexemes ++ [mark ")"])

def FieldValue.lexemes : FieldValue → List Lexeme
  | .operand o => o.lexemes
  | .choice condition first second => condition.lexemes ++ mark "?" :: (first.lexemes ++ mark ":" :: second.lexemes)

/-- The arguments, behind a comma if they are not the first ones. -/
def FieldArguments.lexemes (first : Bool) : FieldArguments → List Lexeme
  | .nil => []
  | .cons value more => (if first then [] else [mark ","]) ++ (value.lexemes ++ more.lexemes false)

end

/-! ## Brackets -/

/-- How many more round brackets are opened than closed. -/
def roundsOpen (ms : List Lexeme) : Int := ms.count (mark "(") - ms.count (mark ")")

theorem roundsOpen_append (ms ns : List Lexeme) : roundsOpen (ms ++ ns) = roundsOpen ms + roundsOpen ns := by
  simp only [roundsOpen, List.count_append]
  omega

theorem roundsOpen_reverse (ms : List Lexeme) : roundsOpen ms.reverse = roundsOpen ms := by
  rw [roundsOpen, List.count_reverse, List.count_reverse, roundsOpen]

theorem roundsOpen_cons (m : Lexeme) (ms : List Lexeme) : roundsOpen (m :: ms) = roundsOpen [m] + roundsOpen ms :=
  roundsOpen_append [m] ms

theorem Atom.roundsOpen_lexeme (a : Atom) : roundsOpen [a.lexeme] = 0 := by
  rw [roundsOpen, List.count_singleton, List.count_singleton, beq_false_of_ne (a.ne_mark "("), beq_false_of_ne (a.ne_mark ")")]
  rfl

mutual

theorem FieldOperand.roundsOpen_lexemes : (o : FieldOperand) → roundsOpen o.lexemes = 0
  | .atom a => a.roundsOpen_lexeme
  | .call callee arguments => by
    have hcallee := callee.roundsOpen_lexemes
    have harguments := arguments.roundsOpen_lexemes true
    rw [FieldOperand.lexemes, roundsOpen_append, roundsOpen_cons, roundsOpen_append, hcallee, harguments]
    rfl
  | .round inner => by
    have hinner := inner.roundsOpen_lexemes
    rw [FieldOperand.lexemes, roundsOpen_cons, roundsOpen_append, hinner]
    rfl

theorem FieldValue.roundsOpen_lexemes : (v : FieldValue) → roundsOpen v.lexemes = 0
  | .operand o => o.roundsOpen_lexemes
  | .choice condition first second => by
    have hcondition := condition.roundsOpen_lexemes
    have hfirst := first.roundsOpen_lexemes
    have hsecond := second.roundsOpen_lexemes
    rw [FieldValue.lexemes, roundsOpen_append, roundsOpen_cons (mark "?"), roundsOpen_append, roundsOpen_cons (mark ":"), hcondition, hfirst,
      hsecond]
    rfl

theorem FieldArguments.roundsOpen_lexemes (first : Bool) : (vs : FieldArguments) → roundsOpen (vs.lexemes first) = 0
  | .nil => rfl
  | .cons value more => by
    have hvalue := value.roundsOpen_lexemes
    have hmore := more.roundsOpen_lexemes false
    have hcomma : roundsOpen (if first then [] else [mark ","]) = 0 := by cases first <;> rfl
    rw [FieldArguments.lexemes, roundsOpen_append, roundsOpen_append, hcomma, hvalue, hmore]
    rfl

end

/-! ## Frames -/

/-- A question mark waits for its colon. -/
def Frame.asked (f : Frame) : Frame := { f with conditions := f.conditions + 1 }

/-- A colon has answered a question mark. -/
def Frame.answered (f : Frame) : Frame := { f with conditions := f.conditions - 1 }

/-- The frame behind an operand. -/
def FieldOperand.behind : FieldOperand → Frame → Frame
  | .atom a, f => a.behind f
  | .call callee _, f => callee.behind f
  | .round _, f => f

/-- The frame behind a value. -/
def FieldValue.behind : FieldValue → Frame → Frame
  | .operand o, f => o.behind f
  | .choice condition first second, f => second.behind (first.behind (condition.behind f).asked).answered

/-- The frame behind arguments. -/
def FieldArguments.behind : FieldArguments → Frame → Frame
  | .nil, f => f
  | .cons value more, f => more.behind (value.behind f)

/-- Frames that differ at most in what words have said. -/
structure Frame.Alike (f g : Frame) : Prop where
  bracket : g.bracket = f.bracket
  classBody : g.classBody = f.classBody
  conditions : g.conditions = f.conditions

namespace Frame.Alike

variable {f g h : Frame}

theorem refl (f : Frame) : Alike f f := ⟨rfl, rfl, rfl⟩

theorem trans (hg : Alike f g) (hh : Alike g h) : Alike f h :=
  ⟨hh.bracket.trans hg.bracket, hh.classBody.trans hg.classBody, hh.conditions.trans hg.conditions⟩

theorem noting (f : Frame) (w : String) : Alike f (f.noting w) := by
  unfold Frame.noting
  split
  · exact ⟨rfl, rfl, rfl⟩
  · split <;> exact ⟨rfl, rfl, rfl⟩

theorem answered (h : Alike f.asked g) : Alike f g.answered :=
  ⟨h.bracket, h.classBody, congrArg (· - 1) h.conditions⟩

end Frame.Alike

theorem Atom.alike_behind (a : Atom) (f : Frame) : f.Alike (a.behind f) := by
  rw [Atom.behind]
  split
  · exact .noting f _
  · exact .refl f

theorem FieldOperand.alike_behind (f : Frame) : (o : FieldOperand) → f.Alike (o.behind f)
  | .atom a => a.alike_behind f
  | .call callee _ => callee.alike_behind f
  | .round _ => .refl f

theorem FieldValue.alike_behind (f : Frame) : (v : FieldValue) → f.Alike (v.behind f)
  | .operand o => o.alike_behind f
  | .choice condition first second =>
    have hfirst := ((first.alike_behind (condition.behind f).asked).answered)
    ((condition.alike_behind f).trans hfirst).trans (second.alike_behind _)

theorem FieldArguments.alike_behind (f : Frame) : (vs : FieldArguments) → f.Alike (vs.behind f)
  | .nil => .refl f
  | .cons value more => (value.alike_behind f).trans (more.alike_behind _)

/-- The frame of a place in a field: the body of the class, or a round bracket in it. -/
structure InField (f : Frame) (said : List Lexeme) : Prop where
  nonneg : 0 ≤ roundsOpen said
  classBody : f.classBody = decide (roundsOpen said = 0)
  round : f.isRound = decide (roundsOpen said ≠ 0)

theorem InField.behind {f g : Frame} {said ms : List Lexeme} (h : InField f said) (hbracket : g.bracket = f.bracket)
    (hbody : g.classBody = f.classBody) (hms : roundsOpen ms = 0) : InField g (ms.reverse ++ said) := by
  have hsame : roundsOpen (ms.reverse ++ said) = roundsOpen said := by rw [roundsOpen_append, roundsOpen_reverse, hms, Int.zero_add]
  refine ⟨hsame ▸ h.nonneg, ?_, ?_⟩
  · rw [hbody, h.classBody, hsame]
  · rw [Frame.isRound, hbracket, hsame, ← h.round, Frame.isRound]

theorem InField.opening {f : Frame} {said : List Lexeme} (h : InField f said) (before : Option String) :
    InField (Frame.opening .round before false) (mark "(" :: said) := by
  have hmore : roundsOpen (mark "(" :: said) = 1 + roundsOpen said := roundsOpen_cons _ _
  have hnonneg := h.nonneg
  refine ⟨by omega, ?_, ?_⟩
  · rw [decide_eq_false (by omega)]
    rfl
  · rw [decide_eq_true (by omega)]
    rfl

/-! ## Question marks -/

/-- A question mark here looks like that of an optional method of the class: no round bracket is open, a name that begins its line stands
before it, and a round bracket behind it. -/
structure LooksOptional (before after : List Token) : Prop where
  outside : roundsOpen (lexemes before) = 0
  name : headIsName (significant before) = true
  line : ((significant before).tail.takeWhile Token.isTrivia).any Token.breaksLine = true
  bracket : (lexemes after).head? = some (mark "(")

instance (before after : List Token) : Decidable (LooksOptional before after) :=
  decidable_of_iff (roundsOpen (lexemes before) = 0 ∧ headIsName (significant before) = true ∧
      ((significant before).tail.takeWhile Token.isTrivia).any Token.breaksLine = true ∧ (lexemes after).head? = some (mark "("))
    ⟨fun h => ⟨h.1, h.2.1, h.2.2.1, h.2.2.2⟩, fun h => ⟨h.outside, h.name, h.line, h.bracket⟩⟩

/-- The token is no question mark that looks like that of an optional method, and if it is a regular expression, the source can be lexed
behind it. -/
structure PlainInField (before : List Token) (t : Token) (after : List Token) : Prop where
  required : t.lexeme = mark "?" → ¬LooksOptional before after
  regex : t.kind = .regex → Lexable (sourceText after)

namespace PlainInField

theorem sparesTrivia : SparesTrivia PlainInField := by
  intro before t after ht
  refine ⟨fun hmark => ?_, fun hregex => ?_⟩
  · rw [Token.isTrivia, (lexeme_eq_mark hmark).1] at ht
    cases ht
  · rw [Token.isTrivia, hregex] at ht
    cases ht

theorem of_kind {before after : List Token} {t : Token} {m : Lexeme} (ht : t.lexeme = m) (hmark : m ≠ mark "?") (hregex : m.1 ≠ .regex) :
    PlainInField before t after :=
  ⟨fun h => absurd (ht.symm.trans h) hmark, fun h => absurd ((congrArg Prod.fst ht).symm.trans h) hregex⟩

theorem of_word {x : String} (before : List Token) (t : Token) (after : List Token) (ht : t.lexeme = word x) : PlainInField before t after :=
  .of_kind ht (by simp) (by simp)

theorem of_mark {x : String} (hx : x ≠ "?") (before : List Token) (t : Token) (after : List Token) (ht : t.lexeme = mark x) :
    PlainInField before t after :=
  .of_kind ht (by simpa using hx) (by simp)

instance (before : List Token) (t : Token) (after : List Token) : Decidable (PlainInField before t after) :=
  decidable_of_iff ((t.lexeme = mark "?" → ¬LooksOptional before after) ∧ (t.kind = .regex → Lexable (sourceText after)))
    ⟨fun h => ⟨h.1, h.2⟩, fun h => ⟨h.required, h.regex⟩⟩

end PlainInField

/-- What stands before a question mark: a bracket that closes, or an atom behind a mark. -/
def BeforeQuestion (said : List Lexeme) : Prop :=
  said.head? = some (mark ")") ∨ ∃ (a : Atom) (sign : String) (more : List Lexeme),
    said = a.lexeme :: mark sign :: more ∧ sign ∈ marksBeforeValues

/-- What a value begins with. -/
def BeginsValue (m : Lexeme) : Prop := m.1 ≠ .punctuation ∨ m = mark "("

/-- Of the marks that stand behind the question mark of an optional member a value begins with none but a round bracket. -/
theorem headIn_of_value {before after us : List Token} {m : Lexeme} (hus : Reads before after us) (hm : (lexemes after).head? = some m)
    (hbegins : BeginsValue m) (texts : List String) (hmarks : ∀ s ∈ texts, s ∈ [":", ",", ")", "=", ";", "("]) :
    headIn (significant us) texts = (texts.contains "(" && decide ((lexemes after).head? = some (mark "("))) := by
  obtain ⟨hother, hslash⟩ := hus.head hm
  rw [hm]
  rcases hbegins with hkind | rfl
  · have hbracket : m ≠ mark "(" := fun heq => hkind (congrArg Prod.fst heq)
    rw [decide_eq_false (fun heq => hbracket (Option.some.inj heq)), Bool.and_false, Bool.eq_false_iff]
    intro hin
    -- of a regular expression the lexer has made a slash
    by_cases hregex : m.1 = .regex
    · obtain ⟨s, hs, hnext⟩ := hslash hregex
      rw [headIn_of_mark hnext, List.contains_iff_mem] at hin
      have hno : ∀ s ∈ ["/", "/="], s ∉ [":", ",", ")", "=", ";", "("] := by decide
      exact hno s hs (hmarks s hin)
    · obtain ⟨u, vs, hnext, -, rfl⟩ := exists_of_head?_lexemes (hother hregex)
      have hmem : u ∈ us := (significant_suffix us).mem (hnext ▸ List.mem_cons_self)
      have hno : ∀ s ∈ [":", ",", ")", "=", ";", "("], beginsOther s.toList = false := by decide
      rw [hnext, headIn, List.contains_iff_mem] at hin
      exact text_ne_of_kind (shaped_of_lexFrom hus.lexed u hmem) hkind (hno _ (hmarks _ hin)) rfl
  · rw [headIn_of_mark (hother (by simp)), decide_eq_true rfl, Bool.and_true]

section Walk

variable {p : Place} {others : List Lexeme} {f : Frame} {outer : List Frame}

theorem brokeLineBefore_of_previous {e : Eraser} (h : e.previousText₂.isSome = true) :
    e.brokeLineBefore = ((significant e.kept).tail.takeWhile Token.isTrivia).any Token.breaksLine := by
  have hsome : (headText (significant (significant e.kept).tail)).isSome = true := h
  rw [brokeLineBefore, keptMeaning]
  cases hkept : significant e.kept with
  | nil => rfl
  | cons t ts =>
    rw [hkept] at hsome
    cases hmore : significant ts with
    | nil =>
      rw [List.tail_cons, hmore] at hsome
      cases hsome
    | cons => simp [hmore]

/-- What makes the walk take a question mark for that of an optional member. -/
theorem marksOptional_iff {e : Eraser} {before after us : List Token} {t : Token} {m : Lexeme} (hkept : e.kept = before)
    (hin : InField e.frame (lexemes before)) (hsaid : BeforeQuestion (lexemes before)) (hus : Reads (t :: before) after us)
    (hm : (lexemes after).head? = some m) (hbegins : BeginsValue m) :
    e.marksOptional (significant us) = true ↔ LooksOptional before after := by
  subst hkept
  have hname : headIsName e.keptMeaning = headIsName (significant e.kept) := rfl
  cases hlast : headIsName (significant e.kept) with
  | false =>
    rw [marksOptional, hname, hlast]
    exact iff_of_false Bool.false_ne_true fun h => by rw [h.name] at hlast; cases hlast
  | true =>
    obtain ⟨sign, hsign, hprevious⟩ : ∃ sign ∈ marksBeforeValues, e.previousText₂ = some sign := by
      rcases hsaid with hclose | ⟨a, sign, more, hsaid, hsign⟩
      · rw [headIsName_significant, hclose] at hlast
        cases hlast
      · exact ⟨sign, hsign, by rw [previousText₂_eq, hsaid]; rfl⟩
    have hmember : ∀ sign ∈ marksBeforeValues, afterMember (some sign) = false := by decide
    have hline : e.brokeLineBefore = ((significant e.kept).tail.takeWhile Token.isTrivia).any Token.breaksLine :=
      brokeLineBefore_of_previous (by rw [hprevious]; rfl)
    have hin₁ := headIn_of_value hus hm hbegins [":", ",", ")", "="] (by decide)
    have hin₂ := headIn_of_value hus hm hbegins [":", ";", "=", "("] (by decide)
    have hno : [":", ",", ")", "="].contains "(" = false := by decide
    rw [marksOptional, hname, hlast, hin.round, hin.classBody, hprevious, hmember sign hsign, hline, hin₁, hin₂, hno]
    -- in round brackets the mark would be that of a parameter, behind which no value begins
    by_cases houtside : roundsOpen (lexemes e.kept) = 0
    · rw [decide_eq_true houtside, decide_eq_false (not_not_intro houtside)]
      simp only [Bool.true_and, Bool.false_and, Bool.false_eq_true, if_false, Bool.false_or, Bool.and_eq_true]
      constructor
      · rintro ⟨hbroke, -, hbracket⟩
        exact ⟨houtside, hlast, hbroke, of_decide_eq_true hbracket⟩
      · intro h
        exact ⟨h.line, by decide, decide_eq_true h.bracket⟩
    · rw [decide_eq_false houtside, decide_eq_true houtside]
      simp only [Bool.false_and, Bool.true_and, ite_self, Bool.false_eq_true, false_iff]
      exact fun h => houtside h.outside

/-- A question mark is kept, unless it looks like that of an optional method. -/
theorem through_question {m : Lexeme} (h : lexemes p.after = mark "?" :: m :: others) (hscope : p.scope = ⟨f, outer, false⟩)
    (hin : InField f (lexemes p.before)) (hsaid : BeforeQuestion (lexemes p.before)) (hbegins : BeginsValue m) :
    Through PlainInField True p [mark "?"] (m :: others) ⟨f.asked, outer, false⟩ := by
  refine .token h PlainInField.sparesTrivia fun q t after hafter ht hothers hbefore hsame => ?_
  have hregex : t.kind ≠ .regex := by rw [(lexeme_eq_mark ht).1]; decide
  have hplain : True ∧ PlainInField q.before t after ↔ ¬LooksOptional q.before after :=
    ⟨fun h => h.2.required ht, fun h => ⟨trivial, fun _ => h, fun hk => absurd hk hregex⟩⟩
  have hscope' {e : Eraser} (he : q.At e) : e.scope = ⟨f, outer, false⟩ := (he.scope.trans hsame).trans hscope
  have hoptional {e : Eraser} {us : List Token} (he : q.At e) (hus : Reads (t :: q.before) after us) :
      e.marksOptional (significant us) = true ↔ LooksOptional q.before after :=
    marksOptional_iff he.kept (by rw [show e.frame = f from congrArg Scope.frame (hscope' he), hbefore]; exact hin) (by rw [hbefore]; exact hsaid)
      hus (by rw [hothers]; rfl) hbegins
  have hstep {e : Eraser} {us : List Token} : step e t us = if e.marksOptional (significant us) then .ok (skipTo e (Tail.ofCons t us))
      else .ok (keep { e with frame := e.frame.asked } t us) := by
    obtain ⟨hkind, htext⟩ := lexeme_eq_mark ht
    rw [step_of_other hkind (by rw [htext]; decide), onMark, if_pos htext]
    rfl
  refine Decides.congr ⟨fun hrequired => ?_, fun hlooks e he => ?_⟩ hplain
  · refine copies_of_step hafter hregex fun e us he hus => ⟨{ e with frame := e.frame.asked }, ?_, rfl, rfl, rfl, ?_⟩
    · rw [hstep, if_neg fun hmarks => hrequired ((hoptional he hus).mp hmarks)]
    · obtain ⟨rfl, rfl, hahead⟩ := Scope.mk.inj (hscope' he)
      rw [← hahead]
      rfl
  · obtain ⟨us, hrest, hus⟩ := (hafter ▸ he.reads : Reads q.before (t :: after) e.rest).next hregex
    refine lost_of_skip he hafter hrest (r := Tail.ofCons t us) ?_
    rw [hstep, if_pos ((hoptional he hus).mpr (not_not.mp hlooks))]

/-- A colon that answers a question mark is kept. -/
theorem through_answer (h : lexemes p.after = mark ":" :: others) (hscope : p.scope = ⟨f, outer, false⟩) (hwaits : f.conditions ≠ 0) :
    Through PlainInField True p [mark ":"] others ⟨f.answered, outer, false⟩ := by
  refine through_kept h PlainInField.sparesTrivia (by simp) (.of_mark (by decide)) fun t e us ht hmeets =>
    ⟨e.onColon, ?_, rfl, rfl, rfl, ?_⟩
  · have hframe : e.frame = f := congrArg Scope.frame (hmeets.scope.trans hscope)
    have hannotates : e.annotates = false := by
      rw [annotates, hframe, decide_eq_false hwaits, Bool.false_and, Bool.false_and]
    rw [step_of_colon ht, hannotates]
    rfl
  · obtain ⟨hframe, houter, hahead⟩ := Scope.mk.inj (hmeets.scope.trans hscope)
    simp only [scope, onColon, hframe, houter, hahead]
    rw [if_pos hwaits]
    rfl

/-! ## Values -/

/-- What stands in round brackets is kept with them. -/
theorem through_round {ms : List Lexeme} {behind : Frame → Frame} (h : lexemes p.after = mark "(" :: (ms ++ mark ")" :: others))
    (hscope : p.scope = ⟨f, outer, false⟩) (hin : InField f (lexemes p.before)) (hbehind : ∀ g : Frame, g.Alike (behind g))
    (hinner : ∀ q g, lexemes q.after = ms ++ mark ")" :: others → q.scope = ⟨g, f :: outer, false⟩ → InField g (lexemes q.before) →
      lexemes q.before = mark "(" :: lexemes p.before → Through PlainInField True q ms (mark ")" :: others) ⟨behind g, f :: outer, false⟩) :
    Through PlainInField True p (mark "(" :: (ms ++ [mark ")"])) others ⟨f, outer, false⟩ := by
  have hopener := through_opener (b := .round) h hscope PlainInField.sparesTrivia (by simp) (.of_mark (by decide))
  have hms := hopener.trans _ fun q hq hsaid hafter => hinner q _ hafter hq (hsaid ▸ hin.opening _) hsaid
  have hcloser := hms.trans [mark ")"] fun q hq _ hafter =>
    through_closer (b := .round) hafter hq PlainInField.sparesTrivia ((hbehind _).bracket) (.of_mark (by decide))
  exact hcloser.congr (by rw [and_true, true_and])

theorem FieldOperand.beforeQuestion (o : FieldOperand) {sign : String} (hsign : sign ∈ marksBeforeValues) {said : List Lexeme}
    (h : said.head? = some (mark sign)) : BeforeQuestion (o.lexemes.reverse ++ said) := by
  obtain ⟨said, rfl⟩ := List.head?_eq_some_iff.mp h
  cases o with
  | atom a => exact .inr ⟨a, sign, said, rfl, hsign⟩
  | call callee arguments => exact .inl (by simp [FieldOperand.lexemes])
  | round inner => exact .inl (by simp [FieldOperand.lexemes])

theorem Fits.behind_colon {sign : String} (h : Fits sign others) : Fits ":" others := by
  obtain ⟨-, n, hn, more, rfl, -⟩ := h
  exact ⟨by decide, n, hn, more, rfl, fun _ => by decide⟩

theorem fits_arguments {sign : String} (vs : FieldArguments) (others : List Lexeme) (hsign : sign ∈ marksBeforeValues) :
    Fits sign (vs.lexemes false ++ mark ")" :: others) := by
  cases vs with
  | nil => exact fits_mark sign ")" hsign (by decide) (by decide)
  | cons => exact fits_mark sign "," hsign (by decide) (by decide)

end Walk

theorem FieldOperand.begins : (o : FieldOperand) → ∃ m ms, o.lexemes = m :: ms ∧ BeginsValue m
  | .atom a => ⟨a.lexeme, [], rfl, .inl fun hkind => a.ne_mark a.lexeme.2 (Prod.ext hkind rfl)⟩
  | .call callee arguments => by
    obtain ⟨m, ms, hms, hm⟩ := callee.begins
    exact ⟨m, _, by rw [FieldOperand.lexemes, hms]; rfl, hm⟩
  | .round inner => ⟨mark "(", _, rfl, .inr rfl⟩

theorem FieldValue.begins (v : FieldValue) : ∃ m ms, v.lexemes = m :: ms ∧ BeginsValue m := by
  cases v with
  | operand o => exact o.begins
  | choice condition first second =>
    obtain ⟨m, ms, hms, hm⟩ := condition.begins
    exact ⟨m, _, by rw [FieldValue.lexemes, hms]; rfl, hm⟩

mutual

/-- The walk copies an operand, unless it takes the question mark of a condition in it for that of an optional method. -/
theorem through_operand {p : Place} {others : List Lexeme} {f : Frame} {outer : List Frame} {sign : String} :
    (o : FieldOperand) → lexemes p.after = o.lexemes ++ others → p.scope = ⟨f, outer, false⟩ → InField f (lexemes p.before) →
    Fits sign others → (lexemes p.before).head? = some (mark sign) →
    Through PlainInField True p o.lexemes others ⟨o.behind f, outer, false⟩
  | .atom a, h, hscope, _, hfits, hbefore => by
    refine through_atom h hscope PlainInField.sparesTrivia hfits hbefore fun before t after ht => ?_
    exact ⟨PlainInField.regex, fun hregex => ⟨fun hmark => absurd (ht.symm.trans hmark) (a.ne_mark _), hregex⟩⟩
  | .call callee arguments, h, hscope, hin, hfits, hbefore => by
    have halike := callee.alike_behind f
    rw [FieldOperand.lexemes, List.append_assoc] at h
    have hcallee := through_operand callee h hscope hin (fits_mark sign "(" hfits.1 (by decide) (by decide)) hbefore
    have hall := hcallee.trans _ fun q hscope hsaid hafter => by
      rw [List.cons_append, List.append_assoc, List.singleton_append] at hafter
      exact through_round hafter hscope (hsaid ▸ hin.behind halike.bracket halike.classBody callee.roundsOpen_lexemes)
        arguments.alike_behind fun q g hafter hscope hin hsaid => through_arguments arguments hafter hscope hin fun _ => by rw [hsaid]; rfl
    exact hall.congr (by rw [and_true])
  | .round inner, h, hscope, hin, _, _ => by
    rw [FieldOperand.lexemes, List.cons_append, List.append_assoc, List.singleton_append] at h
    exact through_round h hscope hin inner.alike_behind fun q g hafter hscope hin hsaid =>
      through_inner inner hafter hscope hin (fits_mark "(" ")" (by decide) (by decide) (by decide)) (by rw [hsaid]; rfl)

/-- The walk copies a value, unless it takes the question mark of a condition for that of an optional method. -/
theorem through_inner {p : Place} {others : List Lexeme} {f : Frame} {outer : List Frame} {sign : String} :
    (v : FieldValue) → lexemes p.after = v.lexemes ++ others → p.scope = ⟨f, outer, false⟩ → InField f (lexemes p.before) →
    Fits sign others → (lexemes p.before).head? = some (mark sign) →
    Through PlainInField True p v.lexemes others ⟨v.behind f, outer, false⟩
  | .operand o, h, hscope, hin, hfits, hbefore => through_operand o h hscope hin hfits hbefore
  | .choice condition first second, h, hscope, hin, hfits, hbefore => by
    obtain ⟨m, ms, hms, hm⟩ := first.begins
    have hasked : roundsOpen (condition.lexemes ++ [mark "?"]) = 0 := by
      rw [roundsOpen_append, condition.roundsOpen_lexemes]
      rfl
    have hanswered : roundsOpen (condition.lexemes ++ [mark "?"] ++ first.lexemes ++ [mark ":"]) = 0 := by
      rw [roundsOpen_append, roundsOpen_append, hasked, first.roundsOpen_lexemes]
      rfl
    have halike := condition.alike_behind f
    have halike' := first.alike_behind (condition.behind f).asked
    simp only [FieldValue.lexemes, List.append_assoc, List.cons_append] at h
    have hcondition := through_operand condition h hscope hin (fits_mark sign "?" hfits.1 (by decide) (by decide)) hbefore
    have hquestion := hcondition.trans [mark "?"] fun q hscope hsaid hafter => by
      rw [hms] at hafter ⊢
      exact through_question hafter hscope (hsaid ▸ hin.behind halike.bracket halike.classBody condition.roundsOpen_lexemes)
        (hsaid ▸ condition.beforeQuestion hfits.1 hbefore) hm
    have hfirst := hquestion.trans _ fun q hscope hsaid hafter =>
      through_inner first hafter hscope (hsaid ▸ hin.behind halike.bracket halike.classBody hasked)
        (fits_colon "?" (by decide) (by decide)) (by rw [hsaid, List.reverse_append]; rfl)
    have hcolon := hfirst.trans [mark ":"] fun q hscope hsaid hafter =>
      through_answer hafter hscope (by rw [halike'.conditions]; exact Nat.succ_ne_zero _)
    have hsecond := hcolon.trans _ fun q hscope hsaid hafter =>
      through_inner second hafter hscope
        (hsaid ▸ hin.behind (halike'.bracket.trans halike.bracket) (halike'.classBody.trans halike.classBody) hanswered)
        hfits.behind_colon (by rw [hsaid, List.reverse_append]; rfl)
    rw [FieldValue.lexemes, FieldValue.behind]
    simpa using hsecond

/-- The walk copies arguments, unless it takes the question mark of a condition in them for that of an optional method. -/
theorem through_arguments {p : Place} {others : List Lexeme} {f : Frame} {outer : List Frame} {first : Bool} :
    (vs : FieldArguments) → lexemes p.after = vs.lexemes first ++ mark ")" :: others → p.scope = ⟨f, outer, false⟩ →
    InField f (lexemes p.before) → (first = true → (lexemes p.before).head? = some (mark "(")) →
    Through PlainInField True p (vs.lexemes first) (mark ")" :: others) ⟨vs.behind f, outer, false⟩
  | .nil, h, hscope, _, _ => .nil hscope h
  | .cons value more, h, hscope, hin, hbefore => by
    have halike := value.alike_behind f
    have hcomma : roundsOpen (if first then [] else [mark ","]) = 0 := by cases first <;> rfl
    have hclosed : roundsOpen ((if first then [] else [mark ","]) ++ value.lexemes) = 0 := by
      rw [roundsOpen_append, hcomma, value.roundsOpen_lexemes]
      rfl
    obtain ⟨sign, hfits, hsign⟩ : ∃ sign, Fits sign (more.lexemes false ++ mark ")" :: others) ∧
        ((if first then [] else [mark ","]).reverse ++ lexemes p.before).head? = some (mark sign) := by
      cases first with
      | true => exact ⟨"(", fits_arguments more others (by decide), hbefore rfl⟩
      | false => exact ⟨",", fits_arguments more others (by decide), rfl⟩
    simp only [FieldArguments.lexemes, List.append_assoc] at h
    have hvalue := (through_separator h hscope PlainInField.sparesTrivia (.of_mark (by decide))).trans _ fun q hscope hsaid hafter =>
      through_inner value hafter hscope (hsaid ▸ hin.behind rfl rfl hcomma) hfits (hsaid ▸ hsign)
    have hmore := hvalue.trans _ fun q hscope hsaid hafter =>
      through_arguments more hafter hscope (hsaid ▸ hin.behind halike.bracket halike.classBody hclosed) fun h => absurd h Bool.false_ne_true
    rw [FieldArguments.lexemes, FieldArguments.behind]
    simpa using hmore

end

/-! ## Fields -/

/-- A field with its value. Any word is the name of a field. -/
structure ClassField where
  name : String
  value : FieldValue

def ClassField.lexemes (field : ClassField) : List Lexeme := word field.name :: mark "=" :: (field.value.lexemes ++ [mark ";"])

/-- The frame behind a field. -/
def ClassField.behind (f : Frame) (field : ClassField) : Frame := { field.value.behind (f.noting field.name) with declaring := false }

theorem ClassField.roundsOpen_lexemes (field : ClassField) : roundsOpen field.lexemes = 0 := by
  rw [ClassField.lexemes, roundsOpen_cons, roundsOpen_cons (mark "="), roundsOpen_append, field.value.roundsOpen_lexemes]
  rfl

theorem ClassField.alike_behind (f : Frame) (field : ClassField) : f.Alike (field.behind f) := by
  have halike := (Frame.Alike.noting f field.name).trans (field.value.alike_behind _)
  exact ⟨halike.bracket, halike.classBody, halike.conditions⟩

section Fields

variable {p : Place} {others : List Lexeme} {f : Frame} {outer : List Frame}

/-- A field begins behind the bracket of the class, or behind another field. -/
def BeforeField (said : List Lexeme) : Prop := ∃ s ∈ ["\x7b", ";"], said.head? = some (mark s)

/-- The walk copies a field, unless it is called `import` or a condition in it is laid out like an optional method. -/
theorem through_field (field : ClassField) (h : lexemes p.after = field.lexemes ++ others) (hscope : p.scope = ⟨f, outer, false⟩)
    (hin : InField f (lexemes p.before)) (hbefore : BeforeField (lexemes p.before)) :
    Through PlainInField (field.name ≠ "import") p field.lexemes others ⟨field.behind f, outer, false⟩ := by
  obtain ⟨s, hs, hhead⟩ := hbefore
  have hpoint : ∀ dot ∈ [".", "?."], (lexemes p.before).head?.map (·.2) ≠ some dot := by
    rw [hhead]
    simp only [List.mem_cons, List.not_mem_nil, or_false] at hs
    rcases hs with rfl | rfl <;> decide
  have hstarts : ∀ before, lexemes before = lexemes p.before → startsStatement before = true := by
    intro before hsame
    have hboundary : ∀ s ∈ ["\x7b", ";"], boundaries.contains s = true := by decide
    rw [startsStatement, headText_significant, hsame, hhead]
    exact Bool.or_eq_true_iff.mpr (.inl (hboundary s hs))
  simp only [ClassField.lexemes, List.cons_append, List.append_assoc] at h
  have hname := through_word (C := field.name ≠ "import") h hscope PlainInField.sparesTrivia (by decide) hpoint (by simp) (by simp)
    fun before t after hsame ht => by
      rw [hstarts before hsame, and_iff_left (.of_word _ _ _ ht)]
      exact ⟨fun hother himport => absurd himport hother, fun hother himport => absurd (hother himport (by decide)) (by decide)⟩
  have halike := Frame.Alike.noting f field.name
  have hequals := hname.trans [mark "="] fun q hscope _ hafter =>
    through_mark hafter hscope PlainInField.sparesTrivia (by decide) (by decide) (.of_mark (by decide))
  have hvalue := hequals.trans _ fun q hscope hsaid hafter =>
    through_inner field.value hafter hscope (hsaid ▸ hin.behind halike.bracket halike.classBody rfl)
      (fits_mark "=" ";" (by decide) (by decide) (by decide)) (by rw [hsaid]; rfl)
  have hend := hvalue.trans [mark ";"] fun q hscope _ hafter =>
    through_semicolon hafter hscope PlainInField.sparesTrivia (.of_mark (by decide))
  exact hend.congr (by rw [and_true, and_true, and_true])

/-- The walk copies fields, unless one is called `import` or a condition in them is laid out like an optional method. -/
theorem through_fields (fields : List ClassField) (h : lexemes p.after = fields.flatMap ClassField.lexemes ++ others)
    (hscope : p.scope = ⟨f, outer, false⟩) (hin : InField f (lexemes p.before)) (hbefore : BeforeField (lexemes p.before)) :
    Through PlainInField (∀ field ∈ fields, field.name ≠ "import") p (fields.flatMap ClassField.lexemes) others
      ⟨fields.foldl ClassField.behind f, outer, false⟩ := by
  induction fields generalizing p f with
  | nil => exact (Through.nil hscope h).congr (iff_of_true (by simp) trivial)
  | cons field fields ih =>
    rw [List.flatMap_cons, List.append_assoc] at h
    have halike := field.alike_behind f
    have hfield := through_field field h hscope hin hbefore
    have hmore := hfield.trans _ fun q hscope hsaid hafter =>
      ih hafter hscope (hsaid ▸ hin.behind halike.bracket halike.classBody field.roundsOpen_lexemes)
        ⟨";", by decide, by rw [hsaid]; simp [ClassField.lexemes]⟩
    rw [List.flatMap_cons, List.foldl_cons]
    exact hmore.congr List.forall_mem_cons

theorem alike_fields (fields : List ClassField) (f : Frame) : f.Alike (fields.foldl ClassField.behind f) := by
  induction fields generalizing f with
  | nil => exact .refl f
  | cons field fields ih => exact (field.alike_behind f).trans (ih _)

end Fields

/-! ## Whole sources -/

section Header

variable {p : Place} {others : List Lexeme} {f : Frame} {outer : List Frame} {name : String}

theorem through_class (h : lexemes p.after = word "class" :: word name :: others) (hscope : p.scope = ⟨f, outer, false⟩)
    (hbefore : lexemes p.before = []) : Through PlainInField True p [word "class"] (word name :: others) ⟨f, outer, true⟩ := by
  refine through_kept h PlainInField.sparesTrivia (by simp) .of_word fun t e us ht hmeets =>
    ⟨{ e with classAhead := true }, ?_, rfl, rfl, rfl, ?_⟩
  · have hprevious : e.previousText = none := by rw [previousText_eq, hmeets.said, hbefore]; rfl
    refine step_of_class ht (by rw [hprevious]; simp) (by rw [hprevious]; simp) ?_
    rw [headIsName_significant, (hmeets.next _ rfl).1 (by simp)]
    rfl
  · obtain ⟨hframe, houter, -⟩ := Scope.mk.inj (hmeets.scope.trans hscope)
    simp only [scope, hframe, houter]

theorem through_ordinary {s : Scope} (h : lexemes p.after = word name :: others) (hscope : p.scope = s) (hname : Ordinary name) :
    Through PlainInField True p [word name] others s := by
  refine through_kept h PlainInField.sparesTrivia (by simp) .of_word fun t e us ht hmeets =>
    ⟨e, ?_, rfl, rfl, rfl, hmeets.scope.trans hscope⟩
  obtain ⟨hkind, htext⟩ := lexeme_eq_word ht
  rw [step_of_identifier hkind, onIdentifier_of_inert (isInert_of_ordinary rfl (htext ▸ hname))]

/-- The body of a class opens. -/
theorem through_header (h : lexemes p.after = word "class" :: word name :: mark "\x7b" :: others) (hscope : p.scope = ⟨f, outer, false⟩)
    (hbefore : lexemes p.before = []) (hname : Ordinary name) :
    Through PlainInField True p [word "class", word name, mark "\x7b"] others ⟨Frame.opening .curly (some name) true, f :: outer, false⟩ := by
  have hnamed := (through_class h hscope hbefore).trans [word name] fun q hscope _ hafter => through_ordinary hafter hscope hname
  have hopener := Through.trans (s := ⟨Frame.opening .curly (some name) true, f :: outer, false⟩) [mark "\x7b"] hnamed
    fun q hscope hsaid hafter => by
      have hq := through_opener (b := .curly) hafter hscope PlainInField.sparesTrivia (fun _ => rfl) (.of_mark (by decide))
      rw [hsaid] at hq
      exact hq
  exact hopener.congr (by rw [and_true, and_true])

end Header

/-- A class of fields comes out as it is, and no module is noted, exactly where no field is called `import`, no condition is laid out like an
optional method, and the source can be lexed from its beginning and from the end of each regular expression on. -/
theorem class_copied_iff {content : String} {ts : List Token} {name : String} (fields : List ClassField) (hname : Ordinary name)
    (hspells : Spells content.toList ts
      (word "class" :: word name :: mark "\x7b" :: (fields.flatMap ClassField.lexemes ++ [mark "\x7d"]))) :
    erase content = .ok ⟨content, []⟩ ↔
      Lexable content.toList ∧ (∀ field ∈ fields, field.name ≠ "import") ∧ Everywhere PlainInField [] ts [] := by
  refine erase_eq_iff_of_through PlainInField.sparesTrivia hspells (s := ⟨.top, [], false⟩) rfl fun p hscope hbefore hafter => ?_
  have hfields := (through_header hafter hscope hbefore hname).trans _ fun q hscope hsaid hafter => by
    rw [hbefore] at hsaid
    have hin : InField (Frame.opening .curly (some name) true) (lexemes q.before) := by
      rw [hsaid]
      exact ⟨Int.le_refl 0, rfl, rfl⟩
    exact through_fields fields hafter hscope hin ⟨"\x7b", by decide, by rw [hsaid]; rfl⟩
  have hcloser := hfields.trans [mark "\x7d"] fun q hscope _ hafter =>
    through_closer (b := .curly) hafter hscope PlainInField.sparesTrivia (alike_fields fields _).bracket (.of_mark (by decide))
  exact hcloser.congr (by rw [and_true, true_and])

/-- A condition in the arm of another one, and a call with a condition, over several lines. -/
theorem class_copied_iff_nested :
    Ordinary "A" ∧
      ∃ ts, Spells "class A \x7b f = a ?\n b ? 'c' : g(\n d ? (e) : 1) : x; \x7d".toList ts
          (word "class" :: word "A" :: mark "\x7b" :: ([⟨"f", .choice (.atom ⟨word "a", by decide⟩)
            (.choice (.atom ⟨word "b", by decide⟩) (.operand (.atom ⟨(.string, "'c'"), by decide⟩))
              (.operand (.call (.atom ⟨word "g", by decide⟩) (.cons (.choice (.atom ⟨word "d", by decide⟩)
                (.operand (.round (.operand (.atom ⟨word "e", by decide⟩)))) (.operand (.atom ⟨(.number, "1"), by decide⟩))) .nil))))
            (.operand (.atom ⟨word "x", by decide⟩))⟩].flatMap ClassField.lexemes ++ [mark "\x7d"])) ∧
        erase "class A \x7b f = a ?\n b ? 'c' : g(\n d ? (e) : 1) : x; \x7d" =
          .ok ⟨"class A \x7b f = a ?\n b ? 'c' : g(\n d ? (e) : 1) : x; \x7d", []⟩ := by
  have hname : Ordinary "A" := by unfold Ordinary; decide
  refine ⟨hname, (exists_spells PlainInField true ?_).elim fun hlexable hts => hts.imp fun ts ⟨hspells, hplain⟩ =>
    ⟨hspells, (class_copied_iff _ hname hspells).mpr ⟨hlexable, by decide, hplain.mpr rfl⟩⟩⟩
  cbv

/-- Behind a name that begins its line the question mark of a condition is dropped, and with its colon an arm of the condition. -/
theorem class_cut_of_condition :
    Ordinary "A" ∧
      (∃ ts, Spells "class A \x7b f =\n c ? (a) : b; \x7d".toList ts
        (word "class" :: word "A" :: mark "\x7b" :: ([⟨"f", .choice (.atom ⟨word "c", by decide⟩)
          (.operand (.round (.operand (.atom ⟨word "a", by decide⟩)))) (.operand (.atom ⟨word "b", by decide⟩))⟩].flatMap ClassField.lexemes ++
            [mark "\x7d"]))) ∧
      erase "class A \x7b f =\n c ? (a) : b; \x7d" = .ok ⟨"class A \x7b f =\n c  (a) ; \x7d", []⟩ := by
  refine ⟨by unfold Ordinary; decide, (exists_spells PlainInField false ?_).2.imp fun ts h => h.1, ?_⟩
  · cbv
  · cbv

end ScriptLoader.Syntax
