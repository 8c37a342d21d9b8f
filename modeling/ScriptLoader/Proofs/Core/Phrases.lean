import ScriptLoader.Proofs.Core.Dropping
import ScriptLoader.Proofs.Core.Edges

/-!
# Expressions of a core program

The property of each category of the core language that the induction carries (`Passes`): from a view where a phrase of the category may
stand, the walk gets behind the phrase, keeps its code, and leaves the brackets and counters as they were. The cases of expressions,
of functions and of what is listed with commas, one lemma for each form.
-/

namespace ScriptLoader.Syntax

open Eraser

/-! ## Where phrases may stand -/

/-- An expression may stand here: no colon is waited for, unless the expression is the middle of a condition, and the bracket is the body
of a class only for the initialiser of a field. -/
structure Open (mid field : Bool) (v : View) : Prop where
  ahead : v.ahead = false
  labels : v.frame.caseLabels = 0
  conditions : mid = false → v.frame.conditions = 0
  body : v.frame.classBody = true → field = true

/-- An expression that begins with an exclamation mark stands where no expression has ended. -/
def FitsBehind (said : List Lexeme) (ss : List Sym) : Prop := ss.head?.map Sym.lexeme = some (mark "!") → ended said = false

/-- What stands right before an element of a list. -/
def openers : Kind → List Lexeme
  | .item => [mark "(", mark "[", mark ","]
  | .property => [mark "\x7b", mark ","]
  | .parameter => [mark "(", mark ","]
  | .declarator => [word "var", word "let", word "const", mark ","]

/-- What stands right behind an element of a list. -/
def followers : Kind → List String
  | .item => [",", ")", "]"]
  | .property => [",", "\x7d"]
  | .parameter => [",", ")"]
  | .declarator => [",", ";"]

/-- The brackets around a list are those of its kind. -/
def Around : Kind → Frame → Prop
  | .item, _ => True
  | .property, f => f.isRound = false ∧ f.declaring = false
  | .parameter, f => f.isRound = true
  | .declarator, f => f.declaring = true

/-- An element of a list may stand here. -/
structure Listed (k : Kind) (v : View) : Prop where
  around : Around k v.frame
  opener : ∃ m ∈ openers k, v.said.head? = some m
  «open» : Open false false v

/-- A statement may stand here. -/
structure Clear (before : List String) (v : View) : Prop where
  «open» : Open false false v
  declaring : v.frame.declaring = false
  before : ∀ m, v.said.head? = some m → m.2 ∈ before

/-- A member of a class may stand here. -/
structure InBody (v : View) : Prop where
  «open» : Open false true v
  body : v.frame.classBody = true
  round : v.frame.isRound = false
  declaring : v.frame.declaring = false
  before : ∀ m, v.said.head? = some m → m.2 ∈ ["\x7b", ";", "\x7d", "static"]

/-- The next lexeme is one of these marks. -/
def Precedes (marks : List String) (rest : List Token) : Prop := ∃ s ∈ marks, (lexemes rest).head? = some (mark s)

/-- From every place where a phrase of the category may stand, the walk gets behind it. -/
def Passes : Category → List Sym → Prop
  | .primary, ss => ∀ (v : View) (rest : List Token), Written ss v.rest rest → v.ahead = false → Goes v (v.after ss rest).tightly
  | .expression mid field typed, ss => ∀ (v : View) (rest : List Token), Written ss v.rest rest → Open mid field v →
      FitsBehind v.said ss → (typed = true → EndsBefore .whole true true rest) → Goes v (v.after ss rest)
  | .arrow mid, ss => ∀ (v : View) (rest : List Token), Written ss v.rest rest → Open mid true v → Precedes ["=>"] rest →
      Goes v (v.after ss rest)
  | .element k, ss | .list k, ss => ∀ (v : View) (rest : List Token), Written ss v.rest rest → Listed k v →
      Precedes (followers k) rest → Goes v (v.after ss rest)
  | .signature, ss | .block, ss | .branch _, ss | .choice, ss => ∀ (v : View) (rest : List Token), Written ss v.rest rest →
      v.ahead = false → Goes v (v.after ss rest)
  | .declaration, ss => ∀ (v : View) (rest : List Token), Written ss v.rest rest → Clear boundaries v → Goes v (v.after ss rest)
  | .statement, ss | .statements, ss => ∀ (v : View) (rest : List Token), Written ss v.rest rest →
      Clear [";", "\x7b", "\x7d"] v → Goes v (v.after ss rest)
  | .member, ss | .members, ss => ∀ (v : View) (rest : List Token), Written ss v.rest rest → InBody v → Goes v (v.after ss rest)

/-! ### Places behind and inside others -/

theorem Open.after {mid field : Bool} {v : View} (h : Open mid field v) (ss : List Sym) (rest : List Token) :
    Open mid field (v.after ss rest) := ⟨h.ahead, h.labels, h.conditions, h.body⟩

/-- Between brackets any expression may stand. -/
theorem open_inside {v : View} (hahead : v.ahead = false) (b : Bracket) (rest : List Token) : Open false false (v.inside b rest) :=
  ⟨rfl, rfl, fun _ => rfl, fun h => absurd (hahead.symm.trans h) (by decide)⟩

theorem Precedes.endsBefore {marks : List String} {rest : List Token} (h : Precedes marks rest)
    (hmarks : ∀ s ∈ marks, goesOn .whole true true (mark s) = false) : EndsBefore .whole true true rest := by
  obtain ⟨s, hs, hhead⟩ := h
  intro m hm
  rw [hhead] at hm
  rw [← Option.some.inj hm]
  exact hmarks s hs

theorem followers_end (k : Kind) : ∀ s ∈ followers k, goesOn .whole true true (mark s) = false := by
  cases k <;> decide

/-- What follows is the next symbol. -/
theorem precedes_of_written {m : String} {ss : List Sym} {ts rest : List Token} (hw : Written (codeMark m :: ss) ts rest) :
    Precedes [m] ts := ⟨m, List.mem_cons_self, by rw [hw.lexemes_eq]; rfl⟩

/-- An expression may stand behind what ends none. -/
theorem fitsBehind_of_head {said : List Lexeme} {m : Lexeme} (hsaid : said.head? = some m) (hm : mayEnd m = false) (ss : List Sym) :
    FitsBehind said ss := by
  intro _
  rw [ended, hsaid]
  exact hm

theorem FitsBehind.of_append {said : List Lexeme} {ss us : List Sym} (h : FitsBehind said (ss ++ us)) : FitsBehind said ss := by
  intro hhead
  refine h ?_
  cases ss with
  | nil => nomatch hhead
  | cons s ss => exact hhead

/-! ## Pieces of type syntax that may be missing -/

section Pieces

variable {v : View} {ss : List Sym} {rest : List Token}

theorem word_not_slash (x : String) : word x ∉ [mark "/", mark "/="] := by
  intro hmem
  rcases List.mem_cons.mp hmem with h | h
  · nomatch h
  · nomatch List.mem_singleton.mp h

theorem goes_ordinary {x : String} (hx : Ordinary x) (hw : Written (codeWord x :: ss) v.rest rest) :
    ∃ us, Written ss us rest ∧ Goes v (v.after [codeWord x] us).tightly :=
  goes_plain hw ⟨isInert_of_ordinary rfl hx, word_not_slash x⟩

theorem goes_optionalArguments (h : Arguments ss) (hw : Written ss v.rest rest) (hplace : v.ListsTypes rest) :
    Goes v (v.after ss rest) := by
  cases h with
  | none => exact goes_nil hw
  | some h => exact goes_arguments hw h hplace

theorem goes_maybeAnnotated {arrow : Bool} (h : Annotated arrow ss) (hw : Written ss v.rest rest) (hplace : v.AwaitsType)
    (hend : EndsBefore .whole (!arrow) true rest) : Goes v (v.after ss rest) := by
  cases h with
  | none => exact goes_nil hw
  | @some bare greedy _ h hbare =>
    refine goes_annotated hw h (fun m hm => ?_) hplace
    have hgo := hend m hm
    simp only [goesOn, Bool.or_eq_false_iff, Bool.and_eq_false_imp, Bool.not_eq_true'] at hgo ⊢
    exact ⟨⟨hgo.1.1, fun hb => hgo.1.2 (by cases arrow <;> simp_all)⟩, fun _ => hgo.2 rfl⟩

/-- Behind the parameters of a function a colon has a type. -/
theorem annotates_of_signature (hsaid : v.said.head? = some (mark ")")) (hlabels : v.frame.caseLabels = 0)
    (hconditions : v.frame.conditions = 0) : v.AwaitsType := ⟨hconditions, hlabels, Or.inl hsaid⟩

end Pieces

/-! ## Values -/

section Values

variable {ss us arguments : List Sym}

theorem passes_plain {m : Lexeme} (hm : isInert m = true ∧ m ∉ [mark "/", mark "/="]) : Passes .primary [code m] := by
  intro v rest hw _
  obtain ⟨us, hrest, hgo⟩ := goes_plain hw hm
  obtain rfl := Written.nil_iff.mp hrest
  exact hgo

theorem passes_literal {m : Lexeme} (hm : isLiteralKind m.1 = true) : Passes .primary [code m] := by
  obtain ⟨kind, text⟩ := m
  refine passes_plain ?_
  cases kind with
  | string | template | number => exact ⟨rfl, by simp only [List.mem_cons, Prod.mk.injEq, reduceCtorEq, false_and, List.not_mem_nil, or_self, not_false_eq_true]⟩
  | _ => nomatch hm

theorem passes_this {x : String} : Passes .primary [codeWord "this", codeMark ".", codeWord x] := by
  intro v rest hw _
  obtain ⟨us₁, hw, hthis⟩ := goes_this hw fun _ hus => headIn_of_written hus [":"]
  obtain ⟨us₂, hw, hdot⟩ := goes_plain (v := v.after [codeWord "this"] us₁) hw (by decide)
  obtain ⟨us₃, hw, hmember⟩ := goes_member (v := (v.after [codeWord "this"] us₁).after [codeMark "."] us₂) hw (by decide) rfl
  obtain rfl := Written.nil_iff.mp hw
  exact hthis.loosen.appendTightly (hdot.loosen.appendTightly hmember)

theorem passes_parentheses {t : Bool} (h : Passes (.expression false false t) ss) : Passes .primary (bracketed .round ss) := by
  intro v rest hw hahead
  refine goes_group hw hahead fun us mid hinside hmid => ?_
  refine h (v.inside .round us) mid hinside (open_inside hahead .round us) (fitsBehind_of_head rfl rfl ss) fun _ => ?_
  have hcloser : Precedes [")"] mid := ⟨")", by decide, hmid⟩
  exact hcloser.endsBefore (by decide)

theorem listed_inside {k : Kind} {b : Bracket} {v : View} (hahead : v.ahead = false) (hopener : mark b.opener ∈ openers k)
    (haround : Around k (Frame.opening b (v.said.head?.map (·.2)) false)) (rest : List Token) : Listed k (v.inside b rest) := by
  refine ⟨?_, ⟨_, hopener, rfl⟩, open_inside hahead b rest⟩
  rw [View.inside, hahead]
  exact haround

/-- A list between brackets. -/
theorem goes_list {k : Kind} {b : Bracket} (h : Passes (.list k) ss) (hopener : mark b.opener ∈ openers k)
    (hcloser : b.closer ∈ followers k) (haround : ∀ before, Around k (Frame.opening b before false)) {v : View} {rest : List Token}
    (hw : Written (bracketed b ss) v.rest rest) (hahead : v.ahead = false) : Goes v (v.after (bracketed b ss) rest).tightly :=
  goes_group hw hahead fun us mid hinside hmid =>
    h (v.inside b us) mid hinside (listed_inside hahead hopener (haround _) us) ⟨b.closer, hcloser, hmid⟩

theorem passes_array (h : Passes (.list .item) ss) : Passes .primary (bracketed .square ss) :=
  fun _ _ hw hahead => goes_list h (by decide) (by decide) (fun _ => trivial) hw hahead

theorem passes_object (h : Passes (.list .property) ss) : Passes .primary (bracketed .curly ss) :=
  fun _ _ hw hahead => goes_list h (by decide) (by decide) (fun _ => ⟨rfl, rfl⟩) hw hahead

theorem passes_dot {dot x : String} (h : Passes .primary ss) (hdot : dot ∈ [".", "?."]) :
    Passes .primary (ss ++ [codeMark dot, codeWord x]) := by
  intro v rest hw hahead
  have hinert : ∀ dot ∈ [".", "?."], isInert (mark dot) = true ∧ mark dot ∉ [mark "/", mark "/="] := by decide
  obtain ⟨mid, hfirst, hw⟩ := hw.split
  obtain ⟨us₁, hw, hpoint⟩ := goes_plain (v := v.after ss mid) hw (hinert dot hdot)
  obtain ⟨us₂, hw, hmember⟩ := goes_member (v := (v.after ss mid).after [codeMark dot] us₁) hw hdot rfl
  obtain rfl := Written.nil_iff.mp hw
  exact (h v mid hfirst hahead).loosen.appendTightly (hpoint.loosen.appendTightly hmember)

theorem passes_index {t : Bool} (h : Passes .primary ss) (hindex : Passes (.expression false false t) us) :
    Passes .primary (ss ++ bracketed .square us) := by
  intro v rest hw hahead
  obtain ⟨mid, hfirst, hsecond⟩ := hw.split
  refine (h v mid hfirst hahead).loosen.appendTightly (goes_group hsecond hahead fun us' mid' hinside hmid => ?_)
  refine hindex _ mid' hinside (open_inside (v := v.after ss mid) hahead .square us') (fitsBehind_of_head rfl rfl us) fun _ => ?_
  have hcloser : Precedes ["]"] mid' := ⟨"]", by decide, hmid⟩
  exact hcloser.endsBefore (by decide)

/-- The arguments of a call, with type arguments before them or not. -/
theorem goes_call {v : View} {rest : List Token} (harguments : Arguments arguments) (hus : Passes (.list .item) us)
    (hw : Written (arguments ++ bracketed .round us) v.rest rest) (hahead : v.ahead = false) :
    Goes v (v.after (arguments ++ bracketed .round us) rest).tightly := by
  obtain ⟨mid, hfirst, hsecond⟩ := hw.split
  have hround : (lexemes mid).head? = some (mark "(") := by rw [hsecond.lexemes_eq]; rfl
  exact (goes_optionalArguments harguments hfirst (Or.inl hround)).appendTightly
    (goes_list hus (by decide) (by decide) (fun _ => trivial) hsecond hahead)

theorem passes_call (h : Passes .primary ss) (harguments : Arguments arguments) (hus : Passes (.list .item) us) :
    Passes .primary (ss ++ (arguments ++ bracketed .round us)) := by
  intro v rest hw hahead
  obtain ⟨mid, hfirst, hsecond⟩ := hw.split
  exact (h v mid hfirst hahead).loosen.appendTightly (goes_call harguments hus hsecond hahead)

theorem passes_callMember {dot x : String} (h : Passes .primary ss) (hdot : dot ∈ [".", "?."]) (harguments : Arguments arguments)
    (hus : Passes (.list .item) us) :
    Passes .primary (ss ++ codeMark dot :: codeWord x :: (arguments ++ bracketed .round us)) := by
  intro v rest hw hahead
  rw [List.append_cons, List.append_cons, List.append_assoc ss] at hw ⊢
  obtain ⟨mid, hfirst, hsecond⟩ := hw.split
  exact (passes_dot h hdot v mid hfirst hahead).loosen.appendTightly (goes_call harguments hus hsecond hahead)

theorem passes_asserted (h : Passes .primary ss) (hends : Ends .primary ss) : Passes .primary (ss ++ [assertion]) := by
  intro v rest hw hahead
  obtain ⟨mid, hfirst, hsecond⟩ := hw.split
  obtain ⟨us, hw, hgo⟩ := goes_assertion (v := (v.after ss mid).tightly) hsecond rfl (ended_after hends v mid)
  obtain rfl := Written.nil_iff.mp hw
  have hgo' : Goes v ((v.after ss mid).after [assertion] us).tightly := (h v mid hfirst hahead).trans hgo
  rwa [View.after_after] at hgo'

end Values

/-! ## Expressions -/

section Expressions

variable {mid field t t₁ t₂ : Bool} {ss us vs : List Sym}

theorem passes_value (h : Passes .primary ss) : Passes (.expression mid field false) ss :=
  fun v rest hw hopen _ _ => (h v rest hw hopen.ahead).loosen

theorem goes_prefixOperator {op : Lexeme} (hop : op ∈ prefixOperators) {v : View} {rest : List Token}
    (hw : Written (code op :: ss) v.rest rest) (hfits : FitsBehind v.said (code op :: ss)) :
    ∃ us, Written ss us rest ∧ FitsBehind (v.after [code op] us).said ss ∧ Goes v (v.after [code op] us) := by
  have hoperators : ∀ op ∈ prefixOperators, mayEnd op = false ∧
      (op = mark "!" ∨ isInert op = true ∧ op ∉ [mark "/", mark "/="]) := by decide
  obtain ⟨hstart, hinert⟩ := hoperators op hop
  obtain ⟨us, hw, hgo⟩ : ∃ us, Written ss us rest ∧ Goes v (v.after [code op] us).tightly := by
    rcases hinert with rfl | hinert
    · exact goes_negation hw (hfits rfl)
    · exact goes_plain hw hinert
  exact ⟨us, hw, fitsBehind_of_head rfl hstart ss, hgo.loosen⟩

theorem goes_binaryOperator {op : Lexeme} (hop : op ∈ binaryOperators) {v : View} {rest : List Token}
    (hw : Written (code op :: ss) v.rest rest) (hended : ended v.said = true) :
    ∃ us, Written ss us rest ∧ FitsBehind (v.after [code op] us).said ss ∧ Goes v (v.after [code op] us) := by
  have hoperators : ∀ op ∈ binaryOperators, mayEnd op = false ∧ isInert op = true := by decide
  obtain ⟨hstart, hinert⟩ := hoperators op hop
  obtain ⟨us, hw, hgo⟩ := goes_inert hw hinert fun _ => hended
  exact ⟨us, hw, fitsBehind_of_head rfl hstart ss, hgo.loosen⟩

/-- A type ends before an operator that joins no types. -/
theorem endsBefore_of_operator {op : Lexeme} (hop : op ∈ binaryOperators) (hjoins : op ∉ [mark "|", mark "&"]) {ts rest : List Token}
    (hw : Written (code op :: ss) ts rest) : EndsBefore .whole true true ts := by
  have hoperators : ∀ op ∈ binaryOperators, op ∉ [mark "|", mark "&"] → goesOn .whole true true op = false := by decide
  exact endsBefore_of_written hw (hoperators op hop hjoins)

theorem passes_before {op : Lexeme} (hop : op ∈ prefixOperators) (h : Passes (.expression mid field t) ss) :
    Passes (.expression mid field t) (code op :: ss) := by
  intro v rest hw hopen hfits hend
  obtain ⟨us, hw, hfits, hgo⟩ := goes_prefixOperator hop hw hfits
  exact hgo.append (h (v.after [code op] us) rest hw (hopen.after _ _) hfits hend)

theorem passes_binary {op : Lexeme} (hop : op ∈ binaryOperators) (htyped : t = true → op ∉ [mark "|", mark "&"])
    (hends : Ends (.expression mid field t) ss) (h : Passes (.expression mid field t) ss)
    (h' : Passes (.expression mid field t₁) us) : Passes (.expression mid field t₁) (ss ++ code op :: us) := by
  intro v rest hw hopen hfits hend
  obtain ⟨mid₁, hfirst, hw⟩ := hw.split
  have hleft : Goes v (v.after ss mid₁) :=
    h v mid₁ hfirst hopen hfits.of_append fun ht => endsBefore_of_operator hop (htyped ht) hw
  obtain ⟨mid₂, hw, hfits, hgo⟩ := goes_binaryOperator (v := v.after ss mid₁) hop hw (ended_after hends v mid₁)
  exact hleft.append (hgo.append (h' _ rest hw ((hopen.after _ _).after _ _) hfits hend))

/-- The next token begins an expression: it is no mark that only a type or an optional name has behind it. -/
theorem headIn_of_begins {ws : List Sym} {ts rest : List Token} (hw : Written (us ++ ws) ts rest)
    (hbegins : Begins (.expression mid field t) us) : headIn (significant ts) [":", ",", ")", "=", ";"] = false := by
  obtain ⟨s, us', rfl, _, hkind | hmem⟩ := hbegins
  · exact headIn_of_word hw hkind (by decide)
  · have hall : ∀ m ∈ beginners, [":", ",", ")", "=", ";"].contains m = false := by decide
    rw [headIn_of_written hw]
    exact hall _ hmem

theorem headIn_round_of_begins {ws : List Sym} {ts rest : List Token} (hw : Written (us ++ ws) ts rest)
    (hbegins : Begins (.expression mid field t) us) (hround : beginsRound us = false) : headIn (significant ts) ["("] = false := by
  obtain ⟨s, us', rfl, _, _⟩ := hbegins
  by_cases hkind : s.lexeme.1 = .punctuation
  · have hne : s.lexeme ≠ mark "(" := beq_eq_false_iff_ne.mp hround
    rw [headIn_of_written hw, List.contains_eq_mem, decide_eq_false_iff_not, List.mem_singleton]
    exact fun htext => hne (Prod.ext hkind htext)
  · exact headIn_of_word hw hkind (by decide)

theorem passes_conditional (h : Passes (.expression mid field t) ss) (hbegins : Begins (.expression true field t₁) us)
    (hyes : Passes (.expression true field t₁) us) (hround : field = true → beginsRound us = false) (hno : Passes (.expression mid field t₂) vs) :
    Passes (.expression mid field t₂) (ss ++ codeMark "?" :: (us ++ codeMark ":" :: vs)) := by
  intro v rest hw hopen hfits hend
  obtain ⟨mid₁, hfirst, hw⟩ := hw.split
  have hcondition : Goes v (v.after ss mid₁) :=
    h v mid₁ hfirst hopen hfits.of_append fun _ => endsBefore_of_written hw rfl
  obtain ⟨mid₂, hw, hquestion⟩ := goes_question (v := v.after ss mid₁) hw fun ts hts =>
    ⟨headIn_of_begins hts hbegins, fun hbody => headIn_round_of_begins hts hbegins (hround (hopen.body hbody))⟩
  obtain ⟨mid₃, hsecond, hw⟩ := hw.split
  -- between the question mark and its colon the frame waits for one more colon
  have hmiddle := hyes ((v.after ss mid₁).after [codeMark "?"] mid₂).waiting.tightly mid₃ hsecond
    ⟨hopen.ahead, hopen.labels, nofun, hopen.body⟩ (fitsBehind_of_head rfl rfl us) fun _ => endsBefore_of_written hw rfl
  obtain ⟨mid₄, hw, hcolon⟩ := goes_colon (v := ((v.after ss mid₁).after [codeMark "?"] mid₂).after us mid₃) hw
  have hcolons : Goes v (v.after (ss ++ codeMark "?" :: (us ++ [codeMark ":"])) mid₄) := by
    have hall := (hcondition.trans (hquestion.trans (hmiddle.trans hcolon))).loosen
    rw [View.after_after, View.after_after, View.after_after] at hall
    exact hall
  have hlast := hno _ rest hw (hopen.after (ss ++ codeMark "?" :: (us ++ [codeMark ":"])) mid₄) ?_ hend
  · have hgo := hcolons.append hlast
    rwa [List.append_assoc, List.cons_append, List.append_assoc] at hgo
  · refine fitsBehind_of_head (m := mark ":") (head?_said_after (getLast?_said_append ss ?_) v mid₄) rfl vs
    exact getLast?_said_cons _ (getLast?_said_append us (getLast?_said_code _))

theorem passes_cast {bare greedy : Bool} {ms : List Lexeme} {as : String} (hends : Ends (.expression mid field t) ss)
    (h : Passes (.expression mid field t) ss) (has : as ∈ ["as", "satisfies"]) (hms : TypeText .whole bare greedy ms)
    (hbegins : beginsCast ms = true) : Passes (.expression mid field true) (ss ++ typedWord as :: ms.map typed) := by
  intro v rest hw hopen hfits hend
  have hends' : ∀ as ∈ ["as", "satisfies"], goesOn .whole true true (word as) = false := by decide
  obtain ⟨mid₁, hfirst, hw⟩ := hw.split
  have hleft : Goes v (v.after ss mid₁) :=
    h v mid₁ hfirst hopen hfits.of_append fun _ => endsBefore_of_written hw (hends' as has)
  exact hleft.append (goes_cast hw has hms hbegins (hend rfl).of_full (ended_after hends v mid₁))

theorem passes_arrowValue (h : Passes (.arrow mid) ss) (hbody : Passes (.expression mid field t) us) :
    Passes (.expression mid field t) (ss ++ codeMark "=>" :: us) := by
  intro v rest hw hopen _ hend
  obtain ⟨mid₁, hfirst, hw⟩ := hw.split
  have hhead : Goes v (v.after ss mid₁) :=
    h v mid₁ hfirst ⟨hopen.ahead, hopen.labels, hopen.conditions, fun _ => rfl⟩ (precedes_of_written hw)
  obtain ⟨mid₂, hw, harrow⟩ := goes_plain (v := v.after ss mid₁) hw (by decide)
  exact hhead.append (harrow.loosen.append
    (hbody _ rest hw ((hopen.after _ _).after _ _) (fitsBehind_of_head rfl rfl us) hend))

theorem passes_arrowBlock (h : Passes (.arrow mid) ss) (hbody : Passes .block us) :
    Passes (.expression mid field false) (ss ++ codeMark "=>" :: us) := by
  intro v rest hw hopen _ _
  obtain ⟨mid₁, hfirst, hw⟩ := hw.split
  have hhead : Goes v (v.after ss mid₁) :=
    h v mid₁ hfirst ⟨hopen.ahead, hopen.labels, hopen.conditions, fun _ => rfl⟩ (precedes_of_written hw)
  obtain ⟨mid₂, hw, harrow⟩ := goes_plain (v := v.after ss mid₁) hw (by decide)
  exact hhead.append (harrow.loosen.append (hbody _ rest hw hopen.ahead))

end Expressions

/-! ## Functions -/

section Functions

variable {mid : Bool} {ss us result arguments : List Sym} {x : String}

theorem passes_arrowName (hx : Ordinary x) : Passes (.arrow mid) [codeWord x] := by
  intro v rest hw _ _
  obtain ⟨us, hw, hgo⟩ := goes_ordinary hx hw
  obtain rfl := Written.nil_iff.mp hw
  exact hgo.loosen

theorem passes_arrowParameters (h : Passes .signature ss) : Passes (.arrow mid) ss :=
  fun v rest hw hopen _ => h v rest hw hopen.ahead

theorem passes_arrowTyped (hends : Ends .signature ss) (h : Passes .signature ss) (hresult : Annotated true result) :
    Passes (.arrow false) (ss ++ result) := by
  intro v rest hw hopen hnext
  obtain ⟨mid₁, hfirst, hsecond⟩ := hw.split
  refine (h v mid₁ hfirst hopen.ahead).append (goes_maybeAnnotated hresult hsecond
    (annotates_of_signature (head?_said_after hends v mid₁) hopen.labels (hopen.conditions rfl)) ?_)
  obtain ⟨s, hs, hhead⟩ := hnext
  intro m hm
  rw [hhead] at hm
  rw [← Option.some.inj hm, List.mem_singleton.mp hs]
  rfl

theorem passes_signature (harguments : Arguments arguments) (h : Passes (.list .parameter) ss) :
    Passes .signature (arguments ++ bracketed .round ss) := by
  intro v rest hw hahead
  obtain ⟨mid₁, hfirst, hsecond⟩ := hw.split
  have hround : (lexemes mid₁).head? = some (mark "(") := by rw [hsecond.lexemes_eq]; rfl
  have hlist : Goes (v.after arguments mid₁) ((v.after arguments mid₁).after (bracketed .round ss) rest).tightly :=
    goes_list (b := .round) h (by decide) (by decide) (fun _ => rfl) hsecond hahead
  exact (goes_optionalArguments harguments hfirst (Or.inl hround)).append hlist.loosen

/-- The parameters of a function, its result type and its body. -/
theorem goes_function {v : View} {rest : List Token} (hends : Ends .signature ss) (h : Passes .signature ss)
    (hresult : Annotated false result) (hbegins : Begins .block us) (hbody : Passes .block us)
    (hw : Written (ss ++ (result ++ us)) v.rest rest) (hahead : v.ahead = false) (hlabels : v.frame.caseLabels = 0)
    (hconditions : v.frame.conditions = 0) : Goes v (v.after (ss ++ (result ++ us)) rest) := by
  obtain ⟨mid₁, hfirst, hw⟩ := hw.split
  obtain ⟨mid₂, hsecond, hthird⟩ := hw.split
  obtain ⟨us, rfl⟩ := hbegins
  refine (h v mid₁ hfirst hahead).append (Goes.append ?_ (hbody _ rest hthird hahead))
  exact goes_maybeAnnotated hresult hsecond
    (annotates_of_signature (head?_said_after hends v mid₁) hlabels hconditions) (endsBefore_of_written hthird rfl)

end Functions

/-! ## What is listed with commas -/

section Lists

variable {k : Kind} {t : Bool} {ss us result : List Sym} {x : String}

/-- An expression that is an element of a list, or the end of one. -/
theorem goes_element {v : View} {rest : List Token} (h : Passes (.expression false false t) ss) (hw : Written ss v.rest rest)
    (hopen : Open false false v) (hfits : FitsBehind v.said ss) (hnext : Precedes (followers k) rest) : Goes v (v.after ss rest) :=
  h v rest hw hopen hfits fun _ => hnext.endsBefore (followers_end k)

theorem passes_item (h : Passes (.expression false false t) ss) : Passes (.element .item) ss := by
  intro v rest hw hlisted hnext
  obtain ⟨m, hm, hsaid⟩ := hlisted.opener
  have hopeners : ∀ m ∈ openers .item, mayEnd m = false := by decide
  exact goes_element h hw hlisted.open (fitsBehind_of_head hsaid (hopeners m hm) ss) hnext

theorem passes_shorthand (hx : Ordinary x) : Passes (.element .property) [codeWord x] := by
  intro v rest hw _ _
  obtain ⟨us, hw, hgo⟩ := goes_ordinary hx hw
  obtain rfl := Written.nil_iff.mp hw
  exact hgo.loosen

theorem passes_keyed {key : Lexeme} (hkey : IsKey key) (h : Passes (.expression false false t) ss) :
    Passes (.element .property) (code key :: codeMark ":" :: ss) := by
  intro v rest hw hlisted hnext
  obtain ⟨hround, hdeclaring⟩ := hlisted.around
  have hopen := hlisted.open
  have hbody : v.frame.classBody = false := Bool.eq_false_iff.mpr fun hbody => nomatch hopen.body hbody
  obtain ⟨us, hw, hgo⟩ := goes_key hkey hw hround hdeclaring hbody hopen.labels (hopen.conditions rfl)
  exact hgo.loosen.append (goes_element h hw (hopen.after _ _) (fitsBehind_of_head rfl rfl ss) hnext)

theorem passes_methodProperty (hx : Ordinary x) (hends : Ends .signature ss) (h : Passes .signature ss)
    (hresult : Annotated false result) (hbegins : Begins .block us) (hbody : Passes .block us) :
    Passes (.element .property) (codeWord x :: (ss ++ (result ++ us))) := by
  intro v rest hw hlisted _
  have hopen := hlisted.open
  obtain ⟨mid, hw, hgo⟩ := goes_ordinary hx hw
  exact hgo.loosen.append (goes_function hends h hresult hbegins hbody hw hopen.ahead hopen.labels (hopen.conditions rfl))

theorem passes_spread (h : Passes (.expression false false t) ss) : Passes (.element k) (codeMark "..." :: ss) := by
  intro v rest hw hlisted hnext
  obtain ⟨mid, hw, hgo⟩ := goes_plain hw (by decide)
  exact hgo.loosen.append (goes_element h hw (hlisted.open.after _ _) (fitsBehind_of_head rfl rfl ss) hnext)

theorem passes_one (h : Passes (.element k) ss) : Passes (.list k) ss := h

theorem passes_empty : Passes (.list k) [] := fun _ _ hw _ _ => goes_nil hw

theorem comma_mem_followers (k : Kind) : "," ∈ followers k := by cases k <;> decide

theorem comma_mem_openers (k : Kind) : mark "," ∈ openers k := by cases k <;> decide

theorem passes_more (h : Passes (.element k) ss) (hothers : Passes (.list k) us) : Passes (.list k) (ss ++ codeMark "," :: us) := by
  intro v rest hw hlisted hnext
  obtain ⟨mid₁, hfirst, hw⟩ := hw.split
  have helement : Goes v (v.after ss mid₁) :=
    h v mid₁ hfirst hlisted ⟨",", comma_mem_followers k, by rw [hw.lexemes_eq]; rfl⟩
  obtain ⟨mid₂, hw, hcomma⟩ := goes_plain (v := v.after ss mid₁) hw (by decide)
  refine helement.append (hcomma.loosen.append (hothers _ rest hw ⟨hlisted.around, ⟨mark ",", comma_mem_openers k, rfl⟩, ?_⟩ hnext))
  exact (hlisted.open.after _ _).after _ _

/-! ### Parameters and variables -/

/-- Behind a parameter's or a variable's name stands its type, its value, or what follows it in its list. -/
theorem headIn_of_annotated {arrow : Bool} {type : List Sym} {marks : List String} (htype : Annotated arrow type)
    {ts rest : List Token} (hw : Written type ts rest) (hnext : Precedes marks rest) {texts : List String} (hcolon : ":" ∈ texts)
    (hmarks : ∀ s ∈ marks, s ∈ texts) : headIn (significant ts) texts = true := by
  rw [headIn_significant]
  cases htype with
  | none =>
    obtain rfl := Written.nil_iff.mp hw
    obtain ⟨s, hs, hhead⟩ := hnext
    rw [hhead]
    exact List.contains_iff_mem.mpr (hmarks s hs)
  | some =>
    rw [hw.lexemes_eq]
    exact List.contains_iff_mem.mpr hcolon

/-- A parameter or a variable, up to its value or what follows it in its list. -/
theorem goes_binding (h : Binding k ss) {v : View} {rest : List Token} (hw : Written ss v.rest rest) (hlisted : Listed k v)
    (hnext : Precedes ("=" :: followers k) rest) : Goes v (v.after ss rest) := by
  have hend : EndsBefore .whole (!false) true rest := hnext.endsBefore (by cases k <;> decide)
  have hlabels := hlisted.open.labels
  have hconditions := hlisted.open.conditions rfl
  obtain ⟨m, hm, hsaid⟩ := hlisted.opener
  cases h with
  | @parameter dots optional type x hdots hx hoptional htype =>
    have hround : v.frame.isRound = true := hlisted.around
    obtain ⟨mid₁, hfirst, hw⟩ := hw.split
    have hdots : Goes v (v.after dots mid₁) ∧ beforeParameter ((v.after dots mid₁).said.head?.map (·.2)) = true := by
      rcases hdots with rfl | rfl
      · refine ⟨goes_nil hfirst, ?_⟩
        have hopeners : ∀ m ∈ openers .parameter, beforeParameter (some m.2) = true := by decide
        show beforeParameter (v.said.head?.map (·.2)) = true
        rw [hsaid]
        exact hopeners m hm
      · obtain ⟨us, hw, hgo⟩ := goes_plain hfirst (by decide)
        obtain rfl := Written.nil_iff.mp hw
        exact ⟨hgo.loosen, rfl⟩
    obtain ⟨hfirst, hbefore⟩ := hdots
    obtain ⟨mid₂, hw, hname⟩ := goes_ordinary (v := v.after dots mid₁) hx hw
    obtain ⟨mid₃, hmark, htyped⟩ := hw.split
    have hmarked : Goes ((v.after dots mid₁).after [codeWord x] mid₂)
        (((v.after dots mid₁).after [codeWord x] mid₂).after optional mid₃) := by
      rcases hoptional with rfl | rfl
      · exact goes_nil hmark
      · obtain ⟨us, hw, hgo⟩ := goes_optional (v := (v.after dots mid₁).after [codeWord x] mid₂) hmark rfl
          (Or.inl ⟨hround, hbefore, fun us hus => by
            obtain rfl := Written.nil_iff.mp hus
            exact headIn_of_annotated htype htyped hnext (by decide) (by decide)⟩)
        obtain rfl := Written.nil_iff.mp hw
        exact hgo
    have hsaid : (((v.after dots mid₁).after [codeWord x] mid₂).after optional mid₃).said = word x :: (v.after dots mid₁).said := by
      rcases hoptional with rfl | rfl <;> rfl
    refine hfirst.append (hname.loosen.append (hmarked.append (goes_maybeAnnotated htype htyped ?_ hend)))
    refine ⟨hconditions, hlabels, Or.inr ⟨x, by rw [hsaid]; rfl, Or.inr (Or.inl ⟨hround, ?_⟩)⟩⟩
    rw [hsaid]
    exact hbefore
  | declarator hx htype =>
    have hdeclaring : v.frame.declaring = true := hlisted.around
    have hopeners : ∀ m ∈ openers .declarator, (declarationWords.contains m.2 || m.2 = ",") = true := by decide
    obtain ⟨mid₁, hw, hname⟩ := goes_ordinary hx hw
    refine hname.loosen.append (goes_maybeAnnotated htype hw ⟨hconditions, hlabels, Or.inr ⟨_, rfl, Or.inr (Or.inr ⟨hdeclaring, ?_⟩)⟩⟩ hend)
    show (v.said.head?.map (·.2)).any _ = true
    rw [hsaid]
    exact hopeners m hm

theorem passes_bound (h : Binding k ss) : Passes (.element k) ss := by
  intro v rest hw hlisted hnext
  obtain ⟨s, hs, hhead⟩ := hnext
  exact goes_binding h hw hlisted ⟨s, List.mem_cons_of_mem _ hs, hhead⟩

theorem passes_defaulted (h : Binding k ss) (hvalue : Passes (.expression false false t) us) :
    Passes (.element k) (ss ++ codeMark "=" :: us) := by
  intro v rest hw hlisted hnext
  obtain ⟨mid₁, hfirst, hw⟩ := hw.split
  have hbinding : Goes v (v.after ss mid₁) :=
    goes_binding h hfirst hlisted ⟨"=", List.mem_cons_self, by rw [hw.lexemes_eq]; rfl⟩
  obtain ⟨mid₂, hw, hequals⟩ := goes_plain (v := v.after ss mid₁) hw (by decide)
  refine hbinding.append (hequals.loosen.append (goes_element hvalue hw ?_ (fitsBehind_of_head rfl rfl us) hnext))
  exact (hlisted.open.after _ _).after _ _

end Lists

end ScriptLoader.Syntax
