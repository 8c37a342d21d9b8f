import ScriptLoader.Proofs.Core.Phrases

/-!
# Declarations and statements of a core program

The cases of declarations, of the members of classes and of statements, one lemma for each form.
-/

namespace ScriptLoader.Syntax

open Eraser

/-! ## Places -/

section Places

variable {v : View}

/-- Behind a phrase that ends in a semicolon or a curly bracket a statement may stand. -/
theorem Clear.next (h : Clear [";", "\x7b", "\x7d"] v) {ss : List Sym} (hends : Ends .statement ss) (rest : List Token) :
    Clear [";", "\x7b", "\x7d"] (v.after ss rest) := by
  refine ⟨h.open.after ss rest, h.declaring, fun m hm => ?_⟩
  rcases hends with hnothing | ⟨s, hs, hlast⟩
  · rw [View.after, hnothing] at hm
    exact h.before m hm
  · have hall : ∀ s ∈ [";", "\x7d"], s ∈ [";", "\x7b", "\x7d"] := by decide
    rw [head?_said_after hlast] at hm
    rw [← Option.some.inj hm]
    exact hall s hs

theorem InBody.next (h : InBody v) {ss : List Sym} (hends : Ends .member ss) (rest : List Token) : InBody (v.after ss rest) := by
  refine ⟨h.open.after ss rest, h.body, h.round, h.declaring, fun m hm => ?_⟩
  obtain ⟨s, hs, hlast⟩ := hends
  have hall : ∀ s ∈ [";", "\x7d"], s ∈ ["\x7b", ";", "\x7d", "static"] := by decide
  rw [head?_said_after hlast] at hm
  rw [← Option.some.inj hm]
  exact hall s hs

end Places

section Pieces

variable {v : View} {ss : List Sym} {rest : List Token}

/-- A semicolon outside a declaration of variables. -/
theorem goes_terminator (hw : Written (codeMark ";" :: ss) v.rest rest) (hdeclaring : v.frame.declaring = false) :
    ∃ us, Written ss us rest ∧ Goes v (v.after [codeMark ";"] us) := by
  obtain ⟨us, hw, hgo⟩ := goes_semicolon false hw hdeclaring
  have hview : v.declaring false = v := by rw [View.declaring, ← hdeclaring]; rfl
  rw [hview] at hgo
  exact ⟨us, hw, hgo.loosen⟩

end Pieces

/-! ## Blocks -/

section Blocks

variable {ss us : List Sym}

theorem passes_block (h : Passes .statements ss) : Passes .block (bracketed .curly ss) := by
  intro v rest hw hahead
  refine (goes_group hw hahead fun us mid hinside _ => h _ mid hinside ⟨open_inside hahead .curly us, rfl, fun m hm => ?_⟩).loosen
  rw [← Option.some.inj hm]
  decide

theorem passes_noStatements : Passes .statements [] := fun _ _ hw _ => goes_nil hw

theorem passes_moreStatements (hends : Ends .statement ss) (h : Passes .statement ss) (hothers : Passes .statements us) :
    Passes .statements (ss ++ us) := by
  intro v rest hw hclear
  obtain ⟨mid, hfirst, hsecond⟩ := hw.split
  exact (h v mid hfirst hclear).append (hothers _ rest hsecond (hclear.next hends mid))

theorem passes_oneStatement (h : Passes .statement ss) : Passes .statements ss := h

/-- An expression in round brackets, after a word. -/
theorem passes_branch {w : String} {t : Bool} (hw : w ∈ ["if", "while"]) (h : Passes (.expression false false t) ss)
    (hbody : Passes .block us) : Passes (.branch w) (codeWord w :: (bracketed .round ss ++ us)) := by
  intro v rest hwritten hahead
  have hinert : ∀ w ∈ ["if", "while"], isInert (word w) = true ∧ word w ∉ [mark "/", mark "/="] := by decide
  obtain ⟨mid₁, hwritten, hword⟩ := goes_plain hwritten (hinert w hw)
  obtain ⟨mid₂, hfirst, hsecond⟩ := hwritten.split
  exact hword.loosen.append
    ((passes_parentheses h (v.after [codeWord w] mid₁) mid₂ hfirst hahead).loosen.append (hbody _ rest hsecond hahead))

theorem passes_alone {w : String} (h : Passes (.branch w) ss) : Passes .choice ss := h

/-- What stands behind `else`. -/
theorem passes_else (h : Passes (.branch "if") ss)
    (hother : ∀ (v : View) (rest : List Token), Written us v.rest rest → v.ahead = false → Goes v (v.after us rest)) :
    Passes .choice (ss ++ codeWord "else" :: us) := by
  intro v rest hw hahead
  obtain ⟨mid₁, hfirst, hw⟩ := hw.split
  obtain ⟨mid₂, hw, hword⟩ := goes_plain (v := v.after ss mid₁) hw (by decide)
  exact (h v mid₁ hfirst hahead).append (hword.loosen.append (hother _ rest hw hahead))

end Blocks

/-! ## Members of classes -/

section Members

variable {v : View} {ss us result modifiers : List Sym} {rest : List Token} {x : String}

/-- The modifiers before the name of a member: behind them a name of a member may stand as before. -/
theorem goes_modifiers (h : Modifiers modifiers) (hw : Written (modifiers ++ codeWord x :: us) v.rest rest) (hbody : InBody v) :
    ∃ mid, Written (codeWord x :: us) mid rest ∧ Goes v (v.after modifiers mid) ∧ InBody (v.after modifiers mid) := by
  induction h generalizing v with
  | nil => exact ⟨v.rest, hw, goes_nil (.nil v.rest), ⟨hbody.open.after [] _, hbody.body, hbody.round, hbody.declaring, hbody.before⟩⟩
  | @erased name ss hname h ih =>
    obtain ⟨s, ss', hnext, hs⟩ : ∃ s ss', ss ++ codeWord x :: us = s :: ss' ∧ s.lexeme.1 = .identifier := by
      cases h with
      | nil => exact ⟨_, _, rfl, rfl⟩
      | erased => exact ⟨_, _, rfl, rfl⟩
      | static => exact ⟨_, _, rfl, rfl⟩
    rw [List.cons_append, hnext] at hw
    obtain ⟨mid₁, hw, hgo⟩ := goes_modifier hw hname hs hbody.body hbody.round hbody.before
    rw [← hnext] at hw
    obtain ⟨mid₂, hw, hgo', hbody'⟩ :=
      ih (v := v.after [typedWord name] mid₁) hw ⟨hbody.open.after _ _, hbody.body, hbody.round, hbody.declaring, hbody.before⟩
    rw [View.after_after] at hbody'
    exact ⟨mid₂, hw, hgo.append hgo', hbody'⟩
  | @static ss h ih =>
    obtain ⟨mid₁, hw, hgo⟩ := goes_plain hw (by decide)
    have hbehind : InBody (v.after [codeWord "static"] mid₁) := by
      refine ⟨hbody.open.after _ _, hbody.body, hbody.round, hbody.declaring, fun m hm => ?_⟩
      rw [← Option.some.inj hm]
      decide
    obtain ⟨mid₂, hw, hgo', hbody'⟩ := ih hw hbehind
    rw [View.after_after] at hbody'
    exact ⟨mid₂, hw, hgo.loosen.append hgo', hbody'⟩

/-- A field, up to its value or the semicolon behind it. -/
theorem goes_field (h : Field ss) (hw : Written ss v.rest rest) (hbody : InBody v) (hnext : Precedes [";", "="] rest) :
    Goes v (v.after ss rest) := by
  have hend : EndsBefore .whole (!false) true rest := hnext.endsBefore (by decide)
  obtain @⟨modifiers, marks, type, x, hmodifiers, hx, hmarks, htype⟩ := h
  obtain ⟨mid₁, hw, hfirst, hbody⟩ := goes_modifiers hmodifiers hw hbody
  obtain ⟨mid₂, hw, hname⟩ := goes_ordinary (v := v.after modifiers mid₁) hx hw
  obtain ⟨mid₃, hmark, htyped⟩ := hw.split
  have hmarked : Goes ((v.after modifiers mid₁).after [codeWord x] mid₂).tightly
      (((v.after modifiers mid₁).after [codeWord x] mid₂).after marks mid₃) := by
    cases hmarks with
    | none => exact (Goes.loose _).trans (goes_nil (v := (v.after modifiers mid₁).after [codeWord x] mid₂) hmark)
    | optional =>
      have hmember : afterMember ((v.after modifiers mid₁).said.head?.map (·.2)) = true := by
        cases hsaid : (v.after modifiers mid₁).said.head? with
        | none => rfl
        | some m => exact List.contains_iff_mem.mpr (hbody.before m hsaid)
      obtain ⟨us, hw, hgo⟩ := goes_optional (v := (v.after modifiers mid₁).after [codeWord x] mid₂) hmark rfl
        (Or.inr ⟨hbody.round, hbody.body, hmember, fun us hus => by
          obtain rfl := Written.nil_iff.mp hus
          exact headIn_of_annotated htype htyped hnext (by decide) (by decide)⟩)
      obtain rfl := Written.nil_iff.mp hw
      exact (Goes.loose _).trans hgo
    | definite =>
      obtain ⟨us, hw, hgo⟩ :=
        goes_assertion (v := ((v.after modifiers mid₁).after [codeWord x] mid₂).tightly) hmark rfl (mayEnd_of_ordinary hx)
      obtain rfl := Written.nil_iff.mp hw
      exact hgo.loosen
  have hsaid : (((v.after modifiers mid₁).after [codeWord x] mid₂).after marks mid₃).said = word x :: (v.after modifiers mid₁).said := by
    cases hmarks <;> rfl
  have hannotated := goes_maybeAnnotated (v := ((v.after modifiers mid₁).after [codeWord x] mid₂).after marks mid₃) htype htyped
    ⟨hbody.open.conditions rfl, hbody.open.labels, Or.inr ⟨x, by rw [hsaid]; rfl, Or.inl hbody.body⟩⟩ hend
  have hnamed : Goes (v.after modifiers mid₁) ((v.after modifiers mid₁).after (codeWord x :: (marks ++ type)) rest) := by
    have hall := hname.trans (hmarked.trans hannotated)
    rw [View.after_after, View.after_after] at hall
    exact hall
  exact hfirst.append hnamed

theorem passes_field (h : Field ss) : Passes .member (ss ++ [codeMark ";"]) := by
  intro v rest hw hbody
  obtain ⟨mid, hfirst, hw⟩ := hw.split
  obtain ⟨us, hw', hend⟩ := goes_terminator (v := v.after ss mid) hw hbody.declaring
  obtain rfl := Written.nil_iff.mp hw'
  exact (goes_field h hfirst hbody ⟨";", by decide, by rw [hw.lexemes_eq]; rfl⟩).append hend

theorem passes_initialised {t : Bool} (h : Field ss) (hvalue : Passes (.expression false true t) us) :
    Passes .member (ss ++ codeMark "=" :: (us ++ [codeMark ";"])) := by
  intro v rest hw hbody
  obtain ⟨mid₁, hfirst, hw⟩ := hw.split
  have hfield : Goes v (v.after ss mid₁) := goes_field h hfirst hbody ⟨"=", by decide, by rw [hw.lexemes_eq]; rfl⟩
  obtain ⟨mid₂, hw, hequals⟩ := goes_plain (v := v.after ss mid₁) hw (by decide)
  obtain ⟨mid₃, hsecond, hw⟩ := hw.split
  have hexpression := hvalue _ mid₃ hsecond ((hbody.open.after ss mid₁).after [codeMark "="] mid₂) (fitsBehind_of_head rfl rfl us)
    fun _ => endsBefore_of_written hw rfl
  obtain ⟨us', hw, hend⟩ :=
    goes_terminator (v := ((v.after ss mid₁).after [codeMark "="] mid₂).after us mid₃) hw hbody.declaring
  obtain rfl := Written.nil_iff.mp hw
  exact hfield.append (hequals.loosen.append (hexpression.append hend))

theorem passes_method (hmodifiers : Modifiers modifiers) (hx : Ordinary x) (hends : Ends .signature ss) (h : Passes .signature ss)
    (hresult : Annotated false result) (hbegins : Begins .block us) (hbody : Passes .block us) :
    Passes .member (modifiers ++ codeWord x :: (ss ++ (result ++ us))) := by
  intro v rest hw hplace
  obtain ⟨mid₁, hw, hfirst, hplace⟩ := goes_modifiers hmodifiers hw hplace
  obtain ⟨mid₂, hw, hname⟩ := goes_ordinary (v := v.after modifiers mid₁) hx hw
  refine hfirst.append (hname.loosen.append ?_)
  exact goes_function hends h hresult hbegins hbody hw hplace.open.ahead hplace.open.labels (hplace.open.conditions rfl)

theorem passes_noMembers : Passes .members [] := fun _ _ hw _ => goes_nil hw

theorem passes_moreMembers (hends : Ends .member ss) (h : Passes .member ss) (hothers : Passes .members us) :
    Passes .members (ss ++ us) := by
  intro v rest hw hbody
  obtain ⟨mid, hfirst, hsecond⟩ := hw.split
  exact (h v mid hfirst hbody).append (hothers _ rest hsecond (hbody.next hends mid))

end Members

/-! ## Declarations -/

section Declarations

variable {ss us result arguments extension implementation : List Sym} {x : String}

theorem passes_declaration {w : String} (hw : w ∈ declarationWords) (hbegins : Begins (.list .declarator) ss)
    (h : Passes (.list .declarator) ss) : Passes .declaration (codeWord w :: (ss ++ [codeMark ";"])) := by
  intro v rest hwritten hclear
  have hopeners : ∀ w ∈ declarationWords, word w ∈ openers .declarator := by decide
  obtain ⟨y, ss', hss, hy⟩ := hbegins
  have henum : y ≠ "enum" := by
    rintro rfl
    exact hy (by decide)
  rw [hss, List.cons_append] at hwritten
  obtain ⟨mid₁, hwritten, hword⟩ := goes_declaring hwritten hw henum hclear.before
  rw [← List.cons_append, ← hss] at hwritten
  obtain ⟨mid₂, hfirst, hwritten⟩ := hwritten.split
  have hlist := h ((v.after [codeWord w] mid₁).declaring true).tightly mid₂ hfirst
    ⟨rfl, ⟨word w, hopeners w hw, rfl⟩, ⟨hclear.open.ahead, hclear.open.labels, hclear.open.conditions, hclear.open.body⟩⟩
    ⟨";", by decide, by rw [hwritten.lexemes_eq]; rfl⟩
  obtain ⟨us, hwritten, hend⟩ :=
    goes_semicolon (v := (v.after [codeWord w] mid₁).after ss mid₂) true hwritten hclear.declaring
  obtain rfl := Written.nil_iff.mp hwritten
  have hall := (hword.trans (hlist.trans hend)).loosen
  rw [View.after_after, View.after_after] at hall
  exact hall

theorem passes_functionDeclaration (hx : Ordinary x) (hends : Ends .signature ss) (h : Passes .signature ss)
    (hresult : Annotated false result) (hbegins : Begins .block us) (hbody : Passes .block us) :
    Passes .declaration (codeWord "function" :: codeWord x :: (ss ++ (result ++ us))) := by
  intro v rest hw hclear
  obtain ⟨mid₁, hw, hword⟩ := goes_plain hw (by decide)
  obtain ⟨mid₂, hw, hname⟩ := goes_ordinary (v := v.after [codeWord "function"] mid₁) hx hw
  refine hword.loosen.append (hname.loosen.append ?_)
  exact goes_function hends h hresult hbegins hbody hw hclear.open.ahead hclear.open.labels (hclear.open.conditions rfl)

/-- The class that a class extends. -/
theorem goes_extension {v : View} {rest : List Token} (h : Extension extension) (hw : Written extension v.rest rest)
    (hahead : v.ahead = true) (hended : ended v.said = true) :
    Goes v (v.after extension rest) ∧ ended (v.after extension rest).said = true := by
  cases h with
  | none => exact ⟨goes_nil hw, hended⟩
  | @some base arguments hbase harguments =>
    obtain ⟨mid₁, hw, hword⟩ := goes_plain hw (by decide)
    obtain ⟨mid₂, hw, hname⟩ := goes_ordinary (v := v.after [codeWord "extends"] mid₁) hbase hw
    have htypes := goes_optionalArguments (v := (v.after [codeWord "extends"] mid₁).after [codeWord base] mid₂) harguments hw
      (Or.inr (Or.inr ⟨hahead, rfl⟩))
    refine ⟨hword.loosen.append (hname.loosen.append htypes), ?_⟩
    rw [View.after, said_code_cons, said_code_cons, said_of_arguments harguments]
    exact mayEnd_of_ordinary hbase

theorem goes_implementation {v : View} {rest : List Token} (h : Implementation implementation)
    (hw : Written implementation v.rest rest) (hend : (lexemes rest).head? = some (mark "\x7b")) (hahead : v.ahead = true)
    (hpoint : ∀ e ts, (v.before ts).At e → e.previousText ≠ some "." ∧ e.previousText ≠ some "?.") :
    Goes v (v.after implementation rest) := by
  cases h with
  | none => exact goes_nil hw
  | some h => exact goes_implements hw h hend hahead hpoint

/-- The body of a class. -/
theorem goes_body {v : View} {rest : List Token} (h : Passes .members ss) (hw : Written (bracketed .curly ss) v.rest rest)
    (hahead : v.ahead = true) : Goes v ((v.after (bracketed .curly ss) rest).expecting false) := by
  refine (goes_bracketed hw (fun _ => rfl) fun us mid hinside _ => ?_).trans (Goes.loose _)
  refine h (v.inside .curly us) mid hinside ⟨⟨rfl, rfl, fun _ => rfl, fun _ => rfl⟩, hahead, rfl, rfl, fun m hm => ?_⟩
  rw [← Option.some.inj hm]
  decide

theorem passes_class (hx : Ordinary x) (harguments : Arguments arguments) (hextension : Extension extension)
    (himplementation : Implementation implementation) (h : Passes .members ss) :
    Passes .declaration
      (codeWord "class" :: codeWord x :: (arguments ++ (extension ++ (implementation ++ bracketed .curly ss)))) := by
  intro v rest hw hclear
  have hopen := hclear.open
  obtain ⟨mid₁, hw, hword⟩ := goes_class hw rfl hclear.before
  have hbegun : Goes v ((v.expecting true).after [codeWord "class"] mid₁) := hword.loosen
  obtain ⟨mid₂, hw, hname⟩ := goes_ordinary (v := (v.expecting true).after [codeWord "class"] mid₁) hx hw
  obtain ⟨mid₃, hfirst, hw⟩ := hw.split
  obtain ⟨mid₄, hsecond, hw⟩ := hw.split
  obtain ⟨mid₅, hthird, hfourth⟩ := hw.split
  have hcurly : (lexemes mid₅).head? = some (mark "\x7b") := by rw [hfourth.lexemes_eq]; rfl
  have htypes := goes_optionalArguments
    (v := ((v.expecting true).after [codeWord "class"] mid₁).after [codeWord x] mid₂) harguments hfirst
    (Or.inr (Or.inl ⟨x, rfl, rfl⟩))
  have hended : ended (((((v.expecting true).after [codeWord "class"] mid₁).after [codeWord x] mid₂).after arguments mid₃).said)
      = true := by
    rw [View.after, said_of_arguments harguments]
    exact mayEnd_of_ordinary hx
  obtain ⟨hextended, hended⟩ := goes_extension hextension hsecond rfl hended
  have himplemented := goes_implementation
    (v := (((((v.expecting true).after [codeWord "class"] mid₁).after [codeWord x] mid₂).after arguments mid₃).after extension mid₄))
    himplementation hthird hcurly rfl fun _ _ he => he.no_point hended
  have hall := hbegun.trans (hname.loosen.trans (htypes.trans (hextended.trans (himplemented.trans (goes_body h hfourth rfl)))))
  rw [View.after_after, View.after_after, View.after_after, View.after_after, View.after_after] at hall
  rw [View.expecting_after hopen.ahead] at hall
  exact hall

end Declarations

/-! ## Statements -/

section Statements

variable {t : Bool} {ss us : List Sym}

theorem Clear.widen {v : View} (h : Clear [";", "\x7b", "\x7d"] v) : Clear boundaries v := by
  have hall : ∀ s ∈ [";", "\x7b", "\x7d"], s ∈ boundaries := by decide
  exact ⟨h.open, h.declaring, fun m hm => hall _ (h.before m hm)⟩

theorem passes_declared (h : Passes .declaration ss) : Passes .statement ss := fun v rest hw hclear => h v rest hw hclear.widen

theorem passes_exported (hbegins : Begins .declaration ss) (h : Passes .declaration ss) :
    Passes .statement (codeWord "export" :: ss) := by
  intro v rest hw hclear
  obtain ⟨w, x, ss', hss⟩ := hbegins
  rw [hss] at hw
  obtain ⟨mid, hw, hgo⟩ := goes_export hw rfl rfl rfl hclear.widen.before
  rw [← hss] at hw
  refine hgo.loosen.append (h _ rest hw ⟨hclear.open.after _ _, hclear.declaring, fun m hm => ?_⟩)
  rw [← Option.some.inj hm]
  decide

/-- Where a statement begins no round bracket was closed, and no `export` was kept. -/
theorem Clear.head_ne {v : View} (h : Clear [";", "\x7b", "\x7d"] v) {m : Lexeme} (hm : m.2 ∉ [";", "\x7b", "\x7d"]) :
    v.said.head? ≠ some m := fun hsaid => hm (h.before m hsaid)

/-- Where a statement begins, nothing that was kept is taken back. -/
theorem Clear.retracted_eq {v : View} (h : Clear [";", "\x7b", "\x7d"] v) (rest : List Token) : v.retracted rest = v.before rest := by
  rw [View.retracted, if_neg]
  · rfl
  · intro hexport
    obtain ⟨m, hsaid, hm⟩ := Option.map_eq_some_iff.mp hexport
    exact h.head_ne (by rw [hm]; decide) hsaid

/-- A declaration is erased where a statement may stand, if it is erased with an `export` before it wherever it begins. -/
theorem goes_of_retracts {v : View} {exported : List Sym} {us rest : List Token}
    (hexported : exported = [] ∨ exported = [typedWord "export"]) (hw : Written exported v.rest us)
    (hwords : headIn (significant us) ["\x7b", "*"] = false ∧ headIn (significant (significant us).tail) ["\x7b", "*"] = false)
    (hclear : Clear [";", "\x7b", "\x7d"] v)
    (hgo : ∀ w : View, w.rest = us → (∀ m, w.said.head? = some m → m.2 ∈ boundaries) →
      (w.retracted rest).said.head? ≠ some (mark ")") → Goes w (w.retracted rest)) : Goes v (v.before rest) := by
  rcases hexported with rfl | rfl
  · rw [← hclear.retracted_eq]
    refine hgo v (Written.nil_iff.mp hw) hclear.widen.before ?_
    rw [hclear.retracted_eq]
    exact hclear.head_ne (by decide)
  · refine (goes_exportWord hw rfl hwords.1 hwords.2 hclear.widen.before).loosen.trans ?_
    have hview : (v.after [codeWord "export"] us).retracted rest = v.before rest := rfl
    rw [← hview]
    refine hgo _ rfl (fun m hm => ?_) (hclear.head_ne (by decide))
    rw [← Option.some.inj hm]
    decide

/-- Nothing of an interface or a type alias is kept, nor of an `export` before it. -/
theorem passes_typeDeclaration {exported : List Sym} (hexported : exported = [] ∨ exported = [typedWord "export"])
    (h : TypeDeclaration ss) : Passes .statement (exported ++ ss) := by
  intro v rest hw hclear
  obtain ⟨us, hexport, hw⟩ := hw.split
  have hview : v.after (exported ++ ss) rest = v.before rest := by
    rw [View.after, said_append, said_of_typeDeclaration h]
    rcases hexported with rfl | rfl <;> rfl
  obtain ⟨w, x, ss', hss⟩ : ∃ w x ss', ss = typedWord w :: typedWord x :: ss' := by
    cases h with
    | interface => exact ⟨_, _, _, rfl⟩
    | typeAlias => exact ⟨_, _, _, rfl⟩
  rw [hview]
  refine goes_of_retracts hexported hexport (headIn_of_words (hss ▸ hw) rfl rfl) hclear fun w hrest hbefore hround => ?_
  exact goes_typeDeclaration h (hrest ▸ hw) hbefore hround

theorem passes_choice (h : Passes .choice ss) : Passes .statement ss := fun v rest hw hclear => h v rest hw hclear.open.ahead

theorem passes_leave : Passes .statement [codeWord "return", codeMark ";"] := by
  intro v rest hw hclear
  obtain ⟨mid, hw, hword⟩ := goes_plain hw (by decide)
  obtain ⟨us, hw, hend⟩ := goes_terminator (v := v.after [codeWord "return"] mid) hw hclear.declaring
  obtain rfl := Written.nil_iff.mp hw
  exact hword.loosen.append hend

/-- An expression and the semicolon behind it. -/
theorem goes_evaluated {v : View} {rest : List Token} (h : Passes (.expression false false t) ss)
    (hw : Written (ss ++ [codeMark ";"]) v.rest rest) (hopen : Open false false v) (hfits : FitsBehind v.said ss)
    (hdeclaring : v.frame.declaring = false) : Goes v (v.after (ss ++ [codeMark ";"]) rest) := by
  obtain ⟨mid, hfirst, hw⟩ := hw.split
  obtain ⟨us, hw', hend⟩ := goes_terminator (v := v.after ss mid) hw hdeclaring
  obtain rfl := Written.nil_iff.mp hw'
  exact (h v mid hfirst hopen hfits fun _ => endsBefore_of_written hw rfl).append hend

theorem passes_answer (h : Passes (.expression false false t) ss) : Passes .statement (codeWord "return" :: (ss ++ [codeMark ";"])) := by
  intro v rest hw hclear
  obtain ⟨mid, hw, hword⟩ := goes_plain hw (by decide)
  exact hword.loosen.append
    (goes_evaluated h hw (hclear.open.after _ _) (fitsBehind_of_head rfl rfl ss) hclear.declaring)

theorem passes_evaluate (h : Passes (.expression false false t) ss) (hbegins : beginsStatement ss = true) :
    Passes .statement (ss ++ [codeMark ";"]) := by
  intro v rest hw hclear
  refine goes_evaluated h hw hclear.open (fun hhead => ?_) hclear.declaring
  cases ss with
  | nil => nomatch hhead
  | cons s ss =>
    have hs : s.lexeme = mark "!" := Option.some.inj hhead
    rw [beginsStatement, List.head?_cons, Option.any_some, hs] at hbegins
    nomatch hbegins

theorem passes_update {op : String} (h : Passes .primary ss) (hop : op ∈ ["++", "--"]) :
    Passes .statement (ss ++ [codeMark op, codeMark ";"]) := by
  intro v rest hw hclear
  have hinert : ∀ op ∈ ["++", "--"], isInert (mark op) = true ∧ mark op ∉ [mark "/", mark "/="] := by decide
  obtain ⟨mid₁, hfirst, hw⟩ := hw.split
  obtain ⟨mid₂, hw, hoperator⟩ := goes_plain (v := v.after ss mid₁) hw (hinert op hop)
  obtain ⟨us, hw, hend⟩ := goes_terminator (v := (v.after ss mid₁).after [codeMark op] mid₂) hw hclear.declaring
  obtain rfl := Written.nil_iff.mp hw
  exact (h v mid₁ hfirst hclear.open.ahead).loosen.append (hoperator.loosen.append hend)

end Statements

/-! ## All phrases -/

/-- From every place where a phrase of the core language may stand the walk gets behind it, and keeps its code. -/
theorem passes_of_core {c : Category} {ss : List Sym} (h : Core c ss) : Passes c ss := by
  induction h with
  | name hx => exact passes_plain ⟨isInert_of_ordinary rfl hx, word_not_slash _⟩
  | constant hx =>
    have hall : ∀ x ∈ constants, isInert (word x) = true ∧ word x ∉ [mark "/", mark "/="] := by decide
    exact passes_plain (hall _ hx)
  | literal hm => exact passes_literal hm
  | this => exact passes_this
  | parentheses _ ih => exact passes_parentheses ih
  | array _ ih => exact passes_array ih
  | object _ ih => exact passes_object ih
  | dot _ hdot _ ih => exact passes_dot ih hdot
  | index _ _ ih ih' => exact passes_index ih ih'
  | call _ harguments _ ih ih' => exact passes_call ih harguments ih'
  | callMember _ hdot harguments _ ih ih' => exact passes_callMember ih hdot harguments ih'
  | asserted h ih => exact passes_asserted ih (ends_of_core h)
  | value _ ih => exact passes_value ih
  | before hop _ ih => exact passes_before hop ih
  | binary hop htyped h _ ih ih' => exact passes_binary hop htyped (ends_of_core h) ih ih'
  | conditional _ hyes hround _ ih ihyes ihno => exact passes_conditional ih (begins_of_core hyes) ihyes hround ihno
  | cast h has hms hbegins ih => exact passes_cast (ends_of_core h) ih has hms hbegins
  | arrowValue _ _ ih ih' => exact passes_arrowValue ih ih'
  | arrowBlock _ _ ih ih' => exact passes_arrowBlock ih ih'
  | arrowName hx => exact passes_arrowName hx
  | arrowParameters _ ih => exact passes_arrowParameters ih
  | arrowTyped h hresult ih => exact passes_arrowTyped (ends_of_core h) ih hresult
  | signature harguments _ ih => exact passes_signature harguments ih
  | item _ ih => exact passes_item ih
  | shorthand hx => exact passes_shorthand hx
  | keyed hkey _ ih => exact passes_keyed hkey ih
  | methodProperty hx h hresult hbody ih ih' =>
    exact passes_methodProperty hx (ends_of_core h) ih hresult (begins_of_core hbody) ih'
  | spread _ _ ih => exact passes_spread ih
  | bound h => exact passes_bound h
  | defaulted h _ ih => exact passes_defaulted h ih
  | empty => exact passes_empty
  | one _ ih => exact passes_one ih
  | more _ _ ih ih' => exact passes_more ih ih'
  | declaration hw h ih => exact passes_declaration hw (begins_of_core h) ih
  | function hx h hresult hbody ih ih' =>
    exact passes_functionDeclaration hx (ends_of_core h) ih hresult (begins_of_core hbody) ih'
  | «class» hx harguments hextension himplementation _ ih => exact passes_class hx harguments hextension himplementation ih
  | noMembers => exact passes_noMembers
  | moreMembers h _ ih ih' => exact passes_moreMembers (ends_of_core h) ih ih'
  | field h => exact passes_field h
  | initialised h _ ih => exact passes_initialised h ih
  | method hmodifiers hx h hresult hbody ih ih' =>
    exact passes_method hmodifiers hx (ends_of_core h) ih hresult (begins_of_core hbody) ih'
  | block _ ih => exact passes_block ih
  | noStatements => exact passes_noStatements
  | moreStatements h _ ih ih' => exact passes_moreStatements (ends_of_core h) ih ih'
  | declared _ ih => exact passes_declared ih
  | exported h ih => exact passes_exported (begins_of_core h) ih
  | typeDeclared h => exact passes_typeDeclaration (.inl rfl) h
  | typeExported h => exact passes_typeDeclaration (.inr rfl) h
  | branch hw _ _ ih ih' => exact passes_branch hw ih ih'
  | alone _ ih => exact passes_alone ih
  | otherwise _ _ ih ih' => exact passes_else ih ih'
  | otherwiseIf _ _ ih ih' => exact passes_else ih ih'
  | choice _ ih => exact passes_choice ih
  | leave => exact passes_leave
  | answer _ ih => exact passes_answer ih
  | evaluate _ hbegins ih => exact passes_evaluate ih hbegins
  | update _ _ hop ih => exact passes_update ih hop

end ScriptLoader.Syntax
