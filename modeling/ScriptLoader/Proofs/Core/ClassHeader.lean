import ScriptLoader.Proofs.Core.Casts
import ScriptLoader.Proofs.Core.ClassAhead

/-!
# Class headers

The first curly bracket behind `class` opens the body of the class, and type arguments behind the class that is extended are erased where
`extends` is the last but one word of the code. So a header comes through, and its bracket opens the body, if and only if no curly bracket
stands in the class that is extended, and type arguments stand behind a name alone (`classHeader_entered_iff`).
-/

namespace ScriptLoader.Syntax

open Eraser

/-! ## Code before a curly bracket -/

/-- Of the lexemes behind `before` none is heeded in front of the first curly bracket. -/
def calm : (before : Option Lexeme) → List Lexeme → Bool
  | _, [] => true
  | before, m :: ms => m == mark "\x7b" || (!heeds before m && calm (some m) ms)

section Calm

variable {before : Option Lexeme} {m : Lexeme} {ms ms' : List Lexeme}

/-- What is heeded behind another lexeme is heeded on its own. -/
theorem heeds_none (h : heeds none m = false) : heeds before m = false := by
  simp only [heeds, Option.any_none, Bool.not_false, Bool.and_true, Bool.or_eq_false_iff] at h ⊢
  exact ⟨h.1, by rw [h.2, Bool.false_and]⟩

theorem calm_none (h : calm none ms = true) : calm before ms = true := by
  cases ms with
  | nil => rfl
  | cons m ms =>
    simp only [calm, Bool.or_eq_true, Bool.and_eq_true, Bool.not_eq_true'] at h ⊢
    exact h.imp_right fun h => ⟨heeds_none h.1, h.2⟩

theorem calm_cons (hm : heeds none m = false) (h : calm none ms = true) : calm before (m :: ms) = true := by
  rw [calm, heeds_none hm, calm_none h]
  exact Bool.or_true _

theorem calm_append (h : calm before ms = true) (h' : calm none ms' = true) : calm before (ms ++ ms') = true := by
  induction ms generalizing before with
  | nil => exact calm_none h'
  | cons m ms ih =>
    simp only [List.cons_append, calm, Bool.or_eq_true, Bool.and_eq_true] at h ⊢
    exact h.imp_right fun h => ⟨h.1, ih h.2⟩

theorem calm_curly : calm before (mark "\x7b" :: ms) = true := rfl

/-- A member may have any name. -/
theorem calm_member {dot x : String} (hdot : dot ∈ [".", "?."]) (h : calm none ms = true) :
    calm before (mark dot :: word x :: ms) = true := by
  have hdots : ∀ dot ∈ [".", "?."], heeds none (mark dot) = false ∧ [".", "?."].contains dot = true := by decide
  obtain ⟨hmark, hpoint⟩ := hdots dot hdot
  have hname : heeds (some (mark dot)) (word x) = false := by
    have hkinds : ∀ s : String, (word x == mark s) = false := fun _ => beq_eq_false_iff_ne.mpr nofun
    rw [heeds, Option.any_some, hpoint, hkinds, hkinds]
    exact Bool.and_false _
  rw [calm, calm, heeds_none hmark, hname, calm_none h]
  simp only [Bool.not_false, Bool.true_and, Bool.or_true]

/-- The first lexeme that is heeded is a curly bracket. -/
theorem eq_curly_of_calm {said front back : List Lexeme} (h : calm said.head? (front ++ m :: back) = true)
    (hfront : mark "\x7b" ∉ front) (hm : heeds (front.reverse ++ said).head? m = true) : m = mark "\x7b" := by
  induction front generalizing said with
  | nil =>
    rw [List.nil_append, calm, show heeds said.head? m = true from hm, Bool.or_eq_true] at h
    exact eq_of_beq (h.resolve_right nofun)
  | cons n front ih =>
    rw [List.mem_cons, not_or] at hfront
    rw [List.cons_append, calm, Bool.or_eq_true, Bool.and_eq_true] at h
    have hsaid : (front.reverse ++ n :: said).head? = ((n :: front).reverse ++ said).head? := by
      rw [List.reverse_cons, List.append_assoc]
      rfl
    exact @ih (n :: said) (h.resolve_left fun hn => hfront.1 (eq_of_beq hn).symm).2 hfront.2 (hsaid ▸ hm)

end Calm

/-! ### Expressions -/

theorem heeds_of_ordinary {m : Lexeme} (hkind : m.1 = .identifier) (hm : Ordinary m.2) : heeds none m = false := by
  have hreserved : ∀ m ∈ [mark "\x7b", mark "<", word "implements", word "import", word "export"],
      m.1 = .identifier → m.2 ∈ reservedWords := by decide
  rw [Bool.eq_false_iff]
  exact fun h => hm (hreserved m (mem_of_heeds h) hkind)

theorem heeds_of_literal {m : Lexeme} (hm : isLiteralKind m.1 = true) : heeds none m = false := by
  have hkinds : ∀ m ∈ [mark "\x7b", mark "<", word "implements", word "import", word "export"], isLiteralKind m.1 = false := by decide
  rw [Bool.eq_false_iff]
  intro h
  rw [hkinds m (mem_of_heeds h)] at hm
  nomatch hm

theorem heeds_of_key {m : Lexeme} (hm : IsKey m) : heeds none m = false := by
  rcases hm with ⟨hkind, hm⟩ | hkind | hkind
  · exact heeds_of_ordinary hkind hm
  · exact heeds_of_literal (by rw [hkind]; rfl)
  · exact heeds_of_literal (by rw [hkind]; rfl)

theorem heeds_of_inert {m : Lexeme} (hm : isInert m = true) : heeds none m = false := by
  have hmarked : ∀ m ∈ [mark "\x7b", mark "<", word "implements", word "import", word "export"], isInert m = false := by decide
  rw [Bool.eq_false_iff]
  intro h
  rw [hmarked m (mem_of_heeds h)] at hm
  nomatch hm

theorem said_of_annotated {arrow : Bool} {ss : List Sym} (h : Annotated arrow ss) : said ss = [] := by
  cases h with
  | none => rfl
  | some => exact (said_typed_cons _ _).trans (said_map_typed _)

/-- In a phrase that may stand in an expression nothing is heeded in front of the first curly bracket. -/
def CalmIn : Category → List Sym → Prop
  | .branch _, _ | .choice, _ | .declaration, _ | .statement, _ | .statements, _ | .member, _ | .members, _ => True
  | _, ss => calm none (said ss) = true

theorem calm_of_nil {ss : List Sym} (h : said ss = []) : calm none (said ss) = true := h ▸ rfl

theorem calm_of_arguments {ss : List Sym} (h : Arguments ss) : calm none (said ss) = true := calm_of_nil (said_of_arguments h)

theorem calm_said {ss us : List Sym} (h : calm none (said ss) = true) (h' : calm none (said us) = true) : calm none (said (ss ++ us)) = true := by
  rw [said_append]
  exact calm_append h h'

theorem calm_bracketed {b : Bracket} {ss : List Sym} (h : calm none (said ss) = true) : calm none (said (bracketed b ss)) = true := by
  have hbrackets : ∀ b : Bracket, b = .curly ∨ heeds none (mark b.opener) = false ∧ heeds none (mark b.closer) = false := by
    intro b
    cases b <;> decide
  rw [said_bracketed]
  rcases hbrackets b with rfl | ⟨hopener, hcloser⟩
  · exact calm_curly
  · exact calm_cons hopener (calm_append h (calm_cons hcloser rfl))

theorem calm_of_binding {k : Kind} {ss : List Sym} (h : Binding k ss) : calm none (said ss) = true := by
  cases h with
  | @parameter dots optional type x hdots hx hoptional htype =>
    have hname : calm none (said (codeWord x :: (optional ++ type))) = true := by
      refine calm_cons (heeds_of_ordinary rfl hx) (calm_said (calm_of_nil ?_) (calm_of_nil (said_of_annotated htype)))
      rcases hoptional with rfl | rfl <;> rfl
    rcases hdots with rfl | rfl
    · exact hname
    · exact calm_cons rfl hname
  | declarator hx htype => exact calm_cons (heeds_of_ordinary rfl hx) (calm_of_nil (said_of_annotated htype))

theorem calm_of_core {c : Category} {ss : List Sym} (h : Core c ss) : CalmIn c ss := by
  induction h with
  | name hx => exact calm_cons (heeds_of_ordinary rfl hx) rfl
  | constant hx =>
    have hall : ∀ x ∈ constants, heeds none (word x) = false := by decide
    exact calm_cons (hall _ hx) rfl
  | literal hm => exact calm_cons (heeds_of_literal hm) rfl
  | this => exact calm_cons rfl (calm_member (by decide) rfl)
  | parentheses _ ih | array _ ih | object _ ih => exact calm_bracketed ih
  | dot _ hdot _ ih => exact calm_said ih (calm_member hdot rfl)
  | index _ _ ih ih' => exact calm_said ih (calm_bracketed ih')
  | call _ harguments _ ih ih' => exact calm_said ih (calm_said (calm_of_arguments harguments) (calm_bracketed ih'))
  | callMember _ hdot harguments _ ih ih' =>
    exact calm_said ih (calm_member hdot (calm_said (calm_of_arguments harguments) (calm_bracketed ih')))
  | asserted _ ih => exact calm_said ih rfl
  | value _ ih => exact ih
  | before hop _ ih =>
    have hoperators : ∀ op ∈ prefixOperators, heeds none op = false := by decide
    exact calm_cons (hoperators _ hop) ih
  | binary hop _ _ _ ih ih' =>
    have hoperators : ∀ op ∈ binaryOperators, heeds none op = false := by decide
    exact calm_said ih (calm_cons (hoperators _ hop) ih')
  | conditional _ _ _ _ ih ihyes ihno =>
    exact calm_said ih (calm_cons rfl (calm_said ihyes (calm_cons rfl ihno)))
  | cast _ _ _ _ ih => exact calm_said ih (calm_of_nil ((said_typed_cons _ _).trans (said_map_typed _)))
  | arrowValue _ _ ih ih' | arrowBlock _ _ ih ih' => exact calm_said ih (calm_cons rfl ih')
  | arrowName hx | shorthand hx => exact calm_cons (heeds_of_ordinary rfl hx) rfl
  | arrowParameters _ ih => exact ih
  | arrowTyped _ hresult ih => exact calm_said ih (calm_of_nil (said_of_annotated hresult))
  | signature harguments _ ih => exact calm_said (calm_of_arguments harguments) (calm_bracketed ih)
  | item _ ih | one _ ih => exact ih
  | keyed hkey _ ih => exact calm_cons (heeds_of_key hkey) (calm_cons rfl ih)
  | methodProperty hx _ hresult _ ih ih' =>
    exact calm_cons (heeds_of_ordinary rfl hx) (calm_said ih (calm_said (calm_of_nil (said_of_annotated hresult)) ih'))
  | spread _ _ ih => exact calm_cons rfl ih
  | bound h => exact calm_of_binding h
  | defaulted h _ ih => exact calm_said (calm_of_binding h) (calm_cons rfl ih)
  | empty => rfl
  | more _ _ ih ih' => exact calm_said ih (calm_cons rfl ih')
  | block => exact calm_curly
  | _ => trivial

theorem calm_of_reference {ss : List Sym} (h : Reference ss) : calm none (said ss) = true := by
  induction h with
  | primary h => exact calm_of_core h
  | name hx => exact calm_cons (heeds_of_inert hx) rfl
  | this => exact calm_cons rfl (calm_member (by decide) rfl)
  | dot _ hdot ih => exact calm_said ih (calm_member hdot rfl)
  | index _ hindex ih => exact calm_said ih (calm_bracketed (calm_of_core hindex))
  | call _ harguments hus ih => exact calm_said ih (calm_said (calm_of_arguments harguments) (calm_bracketed (calm_of_core hus)))

/-! ## What a class extends -/

/-- The code of a reference ends in a word, alone or behind a point, or in something else that ends an expression. -/
inductive EndsReference : List Lexeme → Prop where
  | alone {x : String} : EndsReference [word x]
  | member {dot x : String} {ms : List Lexeme} (hdot : dot ∈ [".", "?."]) : EndsReference (ms ++ [mark dot, word x])
  | other {m : Lexeme} {ms : List Lexeme} (hkind : m.1 ≠ .identifier) (hm : mayEnd m = true) : EndsReference (ms ++ [m])

theorem endsReference_of_bracketed {b : Bracket} (ss us : List Sym) : EndsReference (said (ss ++ bracketed b us)) := by
  rw [said_append, said_bracketed, ← List.cons_append, ← List.append_assoc]
  exact .other nofun (by cases b <;> rfl)

theorem endsReference_of_primary {ss : List Sym} (h : Core .primary ss) : EndsReference (said ss) := by
  generalize hc : Category.primary = c at h
  induction h with
  | name => exact .alone
  | constant => exact .alone
  | @literal m hm =>
    have hkind : m.1 ≠ .identifier := fun hkind => by
      rw [hkind] at hm
      nomatch hm
    exact @EndsReference.other m [] hkind (mayEnd_of_literal hm)
  | this => exact @EndsReference.member "." _ [word "this"] (by decide)
  | parentheses | array | object => exact endsReference_of_bracketed [] _
  | dot _ hdot => exact said_append _ _ ▸ .member hdot
  | index => exact endsReference_of_bracketed _ _
  | call => exact List.append_assoc .. ▸ endsReference_of_bracketed _ _
  | @callMember ss arguments us dot x =>
    rw [show ss ++ codeMark dot :: codeWord x :: (arguments ++ bracketed .round us) =
      (ss ++ codeMark dot :: codeWord x :: arguments) ++ bracketed .round us by simp]
    exact endsReference_of_bracketed _ _
  | asserted _ ih =>
    rw [said_append, said_assertion_cons, said_nil, List.append_nil]
    exact ih rfl
  | _ => nomatch hc

theorem endsReference_of_reference {ss : List Sym} (h : Reference ss) : EndsReference (said ss) := by
  cases h with
  | primary h => exact endsReference_of_primary h
  | name => exact .alone
  | this => exact @EndsReference.member "." _ [word "this"] (by decide)
  | dot _ hdot => exact said_append _ _ ▸ .member hdot
  | index => exact endsReference_of_bracketed _ _
  | call => exact List.append_assoc .. ▸ endsReference_of_bracketed _ _

theorem EndsReference.lastButOne {ms : List Lexeme} (h : EndsReference ms) (m : Lexeme) (before : List Lexeme) :
    (ms.reverse ++ m :: before).tail.head? = (ms.reverse ++ [m]).tail.head? := by
  cases hms : ms.reverse with
  | nil =>
    obtain rfl := List.reverse_eq_nil_iff.mp hms
    generalize hnil : [] = ms at h
    cases h <;> simp at hnil
  | cons n ms =>
    show (ms ++ m :: before).head? = (ms ++ [m]).head?
    rw [List.head?_append, List.head?_append]
    rfl

section Behind

variable {v : View} {e : Eraser} {ms before : List Lexeme}

/-- No member is named behind a reference. -/
theorem EndsReference.no_point (h : EndsReference ms) (hsaid : v.said = ms.reverse ++ before) (he : v.At e) :
    e.previousText ≠ some "." ∧ e.previousText ≠ some "?." := by
  have hword {x : String} {said : List Lexeme} (hx : v.said = word x :: said) :
      e.previousText ≠ some "." ∧ e.previousText ≠ some "?." := by
    have hlast : v.said.head? = some (word x) := by rw [hx]; rfl
    exact ⟨he.previousText_ne hlast nofun (by decide), he.previousText_ne hlast nofun (by decide)⟩
  cases h with
  | alone => exact hword hsaid
  | member =>
    rw [List.reverse_append] at hsaid
    exact hword hsaid
  | other _ hm =>
    rw [List.reverse_concat, List.cons_append] at hsaid
    refine he.no_point ?_
    rw [hsaid]
    exact hm

/-- Where `extends` is not the last but one word, angle brackets behind the class that is extended are no list for the eraser. -/
theorem EndsReference.isTypeParameterList (h : EndsReference ms) (hsaid : v.said = ms.reverse ++ word "extends" :: before) (he : v.At e)
    {after : List Token} (hcall : headIn after ["("] = false) (hextends : v.said.tail.head?.map (·.2) ≠ some "extends") :
    e.isTypeParameterList after = false := by
  rw [Eraser.isTypeParameterList, hcall, he.headIsName, he.previousText₂, decide_eq_false hextends, Bool.and_false, Bool.false_or,
    Bool.or_false]
  cases h with
  | alone =>
    rw [hsaid] at hextends
    exact absurd rfl hextends
  | member hdot =>
    have hdots : ∀ dot ∈ [".", "?."], dot ≠ "class" := by decide
    rw [hsaid, List.reverse_append]
    exact decide_eq_false fun heq => hdots _ hdot (Option.some.inj heq)
  | @other m _ hkind =>
    rw [hsaid, List.reverse_concat]
    show (m.1 == .identifier && _) = false
    rw [beq_eq_false_iff_ne.mpr hkind]
    rfl

end Behind

/-! ## A class that has begun -/

section Begun

variable {v : View} {ss : List Sym} {rest : List Token} {m : Lexeme} {before : List Lexeme} {e : Eraser}

/-- What was said in front of `m`, where more than `ys` was said before it. -/
theorem exists_front {m : Lexeme} {xs ys zs : List Lexeme} (hys : ys <:+ xs) (h : m :: xs <:+ zs.reverse ++ ys) :
    ∃ front back, xs = front ++ ys ∧ zs = front.reverse ++ m :: back := by
  obtain ⟨front, rfl⟩ := hys
  obtain ⟨back, hback⟩ := h
  have hzs : back ++ m :: front = zs.reverse := List.append_cancel_right ((List.append_assoc ..).trans hback)
  refine ⟨front, back.reverse, rfl, ?_⟩
  rw [← List.reverse_reverse zs, ← hzs, List.reverse_append, List.reverse_cons, List.append_assoc]
  rfl

/-- Where no curly bracket was added to the code, none is in what was added. -/
theorem not_mem_of_curlies {e e' : Eraser} {front said : List Lexeme} (h : e'.curlies ≤ e.curlies) (he : lexemes e.kept = said)
    (he' : lexemes e'.kept = front ++ said) : mark "\x7b" ∉ front := by
  intro hmem
  rw [curlies, curlies, he, he', List.count_append] at h
  exact absurd h (Nat.not_le.mpr (Nat.lt_add_of_pos_left (List.count_pos_iff.mpr hmem)))

/-- A way through code without curly brackets opens no body of a class. -/
theorem Goes.quietly (h : Goes v (v.after ss rest)) (hsaid : v.said = m :: before) (hm : m.2 ≠ "export")
    (hcurly : mark "\x7b" ∉ said ss) (he : v.At e) : ∃ e', Quietly e e' ∧ (v.after ss rest).At e' := by
  obtain ⟨e', hrun, he'⟩ := h e he
  have hkept : m :: before <:+ lexemes e.kept := by rw [he.said, hsaid]
  have hall : lexemes e'.kept = (said ss).reverse ++ m :: before := hsaid ▸ he'.said
  refine ⟨e', quietly_of_reaches hrun hm hkept fun S hS hbracket => hcurly ?_, he'⟩
  rw [hall] at hbracket
  obtain ⟨front, back, -, hcode⟩ := exists_front hS hbracket
  rw [hcode]
  exact List.mem_append_right _ List.mem_cons_self

/-- With a class begun the walk goes in the same way through calm code without curly brackets. The first curly bracket that stands there is
taken for the body of the class. -/
theorem extended_or_opened (h : Goes (v.expecting false) ((v.expecting false).after ss rest)) (hahead : v.ahead = true)
    (hcalm : calm none (said ss) = true) (hsaid : v.said = m :: before) (hm : m.2 ≠ "export") (he : v.At e) :
    (mark "\x7b" ∉ said ss ∧ ∃ e', Reaches e e' ∧ (v.after ss rest).At e') ∨
      (mark "\x7b" ∈ said ss ∧ ∃ a b, Quietly e a ∧ Steps a b ∧ OpensBody a b ∧
        (lexemes b.kept).length ≤ (said ss).length + v.said.length) := by
  let plain : Eraser := { e with classAhead := false }
  have hplain : (v.expecting false).At plain := ⟨he.said, he.shaped, he.frame, he.outer, rfl, he.rest, he.closed, he.tight, he.source⟩
  have hexpecting : plain.expecting = e := by
    show { e with classAhead := true } = e
    rw [← hahead, ← he.ahead]
  obtain ⟨e', hrun, he'⟩ := h plain hplain
  have hall : lexemes e'.kept = (said ss).reverse ++ v.said := he'.said
  rcases quietly_expecting hrun with ⟨hquiet, hcurlies⟩ | ⟨a, t, ts, hreach, hquiet, hcurlies, hrest, hheeds, hsuffix⟩
  · rw [hexpecting] at hquiet
    have hnone : mark "\x7b" ∉ (said ss).reverse := not_mem_of_curlies hcurlies hplain.said hall
    exact .inl ⟨fun hmem => hnone (List.mem_reverse.mpr hmem), e'.expecting, hquiet.reaches,
      ⟨he'.said, he'.shaped, he'.frame, he'.outer, hahead.symm, he'.rest, he'.closed, he'.tight, he'.source⟩⟩
  · rw [hexpecting] at hquiet
    have hkept : m :: before <:+ lexemes plain.kept := by
      rw [← hsaid]
      exact he.said ▸ List.suffix_refl _
    have hkept' : v.said <:+ lexemes a.kept := hsaid ▸ suffix_of_reaches hm hreach hkept
    obtain ⟨front, back, hfront, hcode⟩ := exists_front hkept' (hall ▸ hsuffix)
    have hnone : mark "\x7b" ∉ front := not_mem_of_curlies hcurlies hplain.said hfront
    have ht : t.lexeme = mark "\x7b" := by
      rw [hcode] at hcalm
      rw [hfront, ← List.reverse_reverse front] at hheeds
      exact eq_curly_of_calm (calm_none hcalm) (fun hmem => hnone (List.mem_reverse.mp hmem)) hheeds
    obtain ⟨hstep, hbody⟩ := @step_of_curly a.expecting t ts ht rfl
    refine .inr ⟨?_, a.expecting, _, hquiet, .intro hrest hstep, hbody, ?_⟩
    · rw [hcode, ht]
      exact List.mem_append_right _ List.mem_cons_self
    · show (lexemes (t :: a.kept)).length ≤ _
      rw [lexemes_cons_of_not (isTrivia_of_mark ht), hfront, hcode]
      simp only [List.length_cons, List.length_append, List.length_reverse]
      omega

end Begun

/-- Behind what a class extends stands `implements` or the bracket of its body. -/
theorem exists_head_of_implementation {ss : List Sym} (h : Implementation ss) :
    ∃ s others, ss ++ [codeMark "\x7b"] = s :: others ∧ (s.lexeme = word "implements" ∨ s.lexeme = mark "\x7b") := by
  cases h with
  | none => exact ⟨_, _, rfl, .inr rfl⟩
  | some => exact ⟨_, _, rfl, .inl rfl⟩

/-! ## Headers -/

/-- Nothing, or angle brackets of which the eraser finds the end. -/
inductive AngleList : List Sym → Prop where
  | none : AngleList []
  | some {ms : List Lexeme}
      (h : ∀ ts rest, Written ((mark "<" :: ms).map typed) ts rest → Finds (matchAngle (significant ts)) rest) :
      AngleList ((mark "<" :: ms).map typed)

theorem angleList_of_arguments {ss : List Sym} (h : Arguments ss) : AngleList ss := by
  cases h with
  | none => exact .none
  | some h =>
    have hfinds := fun ts rest (hw : Written _ ts rest) => (matchAngle_of_arguments h hw).1
    obtain ⟨_, hmerges⟩ := h
    cases hmerges
    exact .some hfinds

theorem said_of_angleList {ss : List Sym} (h : AngleList ss) : said ss = [] := by
  cases h with
  | none => rfl
  | some => exact said_map_typed _

theorem AngleList.finds {ss : List Sym} {ts rest : List Token} (h : AngleList ss) (hss : ss ≠ []) (hw : Written ss ts rest) :
    ∃ ms, ss = (mark "<" :: ms).map typed ∧ Finds (matchAngle (significant ts)) rest := by
  cases h with
  | none => exact absurd rfl hss
  | some h => exact ⟨_, rfl, h _ _ hw⟩

theorem goes_angleList {v : View} {ss : List Sym} {rest : List Token} (h : AngleList ss) (hw : Written ss v.rest rest)
    (hplace : v.ListsTypes rest) : Goes v (v.after ss rest) := by
  cases h with
  | none => exact goes_nil hw
  | some h => exact goes_angles hw (h _ _ hw) hplace

theorem said_of_implementation {ss : List Sym} (h : Implementation ss) : said ss = [] := by
  cases h with
  | none => rfl
  | some => exact (said_typed_cons _ _).trans (said_map_typed _)

theorem glued_of_angleList {ss : List Sym} (h : AngleList ss) : ∀ s ∈ ss, s.glued = false := by
  cases h with
  | none => exact nofun
  | some => exact glued_map_typed _

theorem glued_of_implementation {ss : List Sym} (h : Implementation ss) : ∀ s ∈ ss, s.glued = false := by
  cases h with
  | none => exact nofun
  | some => exact List.forall_mem_cons.mpr ⟨rfl, glued_map_typed _⟩

/-- A class that extends another one: its name, its type parameters, the class it extends with the type arguments of that, and the types it
implements. -/
structure ExtendedClass where
  name : String
  parameters : List Sym
  base : List Sym
  arguments : List Sym
  implementation : List Sym
  isInert_name : isInert (word name) = true
  angleList_parameters : AngleList parameters
  reference_base : Reference base
  angleList_arguments : AngleList arguments
  implementation_types : Implementation implementation

namespace ExtendedClass

/-- What stands between `class` and the class that is extended. -/
def lead (c : ExtendedClass) : List Sym := codeWord c.name :: (c.parameters ++ [codeWord "extends"])

/-- The class behind the word `class`, up to its body. -/
def header (c : ExtendedClass) : List Sym := c.lead ++ (c.base ++ (c.arguments ++ c.implementation))

/-- The class up to and with the bracket that opens its body. -/
def opened (c : ExtendedClass) : List Sym := codeWord "class" :: (c.header ++ [codeMark "\x7b"])

/-- No curly bracket stands in the class that is extended, and type arguments stand behind it only where the last but one word of the code
before them is `extends`: where the class that is extended is a name alone, or a call with a member called `extends` before its end. -/
structure Recognised (c : ExtendedClass) : Prop where
  curly : mark "\x7b" ∉ said c.base
  arguments : c.arguments = [] ∨ ((said c.base).reverse ++ [word "extends"]).tail.head?.map (·.2) = some "extends"

section Headers

variable {c : ExtendedClass} {v : View} {rest : List Token}

theorem said_lead (c : ExtendedClass) : said c.lead = [word c.name, word "extends"] := by
  rw [lead, codeWord, said_code_cons, said_append, said_of_angleList c.angleList_parameters]
  rfl

theorem said_header (c : ExtendedClass) : said c.header = word c.name :: word "extends" :: said c.base := by
  rw [header, said_append, said_append, said_append, said_lead, said_of_angleList c.angleList_arguments,
    said_of_implementation c.implementation_types, List.append_nil, List.append_nil]
  rfl

theorem said_opened (c : ExtendedClass) :
    said c.opened = word "class" :: word c.name :: word "extends" :: (said c.base ++ [mark "\x7b"]) := by
  rw [opened, codeWord, said_code_cons, said_append, said_header]
  rfl

theorem glued_opened (c : ExtendedClass) (hbase : ∀ s ∈ c.base, s.glued = false) : ∀ s ∈ c.opened, s.glued = false := by
  have hparameters := glued_of_angleList c.angleList_parameters
  have harguments := glued_of_angleList c.angleList_arguments
  have himplementation := glued_of_implementation c.implementation_types
  simp only [opened, header, lead, List.mem_cons, List.mem_append, List.not_mem_nil, or_false]
  rintro s (rfl | ((rfl | hs | rfl) | hs | hs | hs) | rfl)
  · rfl
  · rfl
  · exact hparameters s hs
  · rfl
  · exact hbase s hs
  · exact harguments s hs
  · exact himplementation s hs
  · rfl

theorem said_after_lead : (v.after c.lead rest).said = word "extends" :: word c.name :: v.said := by
  rw [View.after, said_lead]
  rfl

theorem goes_lead (hclass : v.said.head? = some (word "class")) (hw : Written c.lead v.rest rest) : Goes v (v.after c.lead rest) := by
  obtain ⟨mid₁, hw, hname⟩ := goes_plain hw ⟨c.isInert_name, word_not_slash c.name⟩
  obtain ⟨mid₂, hfirst, hw⟩ := hw.split
  have htypes : Goes (v.after [codeWord c.name] mid₁) ((v.after [codeWord c.name] mid₁).after c.parameters mid₂) :=
    goes_angleList c.angleList_parameters hfirst (.inr (.inl ⟨c.name, rfl, hclass⟩))
  obtain ⟨mid₃, hw, hextends⟩ := goes_plain (v := (v.after [codeWord c.name] mid₁).after c.parameters mid₂) hw (by decide)
  obtain rfl := Written.nil_iff.mp hw
  exact hname.loosen.append (htypes.append hextends.loosen)

/-- The class that is extended comes through if no curly bracket stands in it. -/
theorem goes_base (hcurly : mark "\x7b" ∉ said c.base) (hahead : v.ahead = true) {before : List Lexeme}
    (hsaid : v.said = word "extends" :: before) (hw : Written c.base v.rest rest) : Goes v (v.after c.base rest) := by
  intro e he
  have hplain : Goes (v.expecting false) ((v.expecting false).after c.base rest) :=
    (passes_of_reference c.reference_base (v.expecting false) rest hw rfl).loosen
  rcases extended_or_opened hplain hahead (calm_of_reference c.reference_base) hsaid (by decide) he with ⟨_, hgo⟩ | ⟨hmem, _⟩
  · exact hgo
  · exact absurd hmem hcurly

/-- The walk gets behind the class that is extended. -/
theorem goes_extended (hcurly : mark "\x7b" ∉ said c.base) (hahead : v.ahead = true) (hclass : v.said.head? = some (word "class"))
    (hw : Written (c.lead ++ c.base) v.rest rest) : Goes v (v.after (c.lead ++ c.base) rest) := by
  obtain ⟨mid, hfirst, hsecond⟩ := hw.split
  have hbase : Goes (v.after c.lead mid) ((v.after c.lead mid).after c.base rest) := goes_base hcurly hahead said_after_lead hsecond
  exact (goes_lead hclass hfirst).append hbase

theorem said_after_extended :
    (v.after (c.lead ++ c.base) rest).said = (said c.base).reverse ++ word "extends" :: word c.name :: v.said := by
  rw [View.after, said_append, said_lead, List.reverse_append, List.append_assoc]
  rfl

/-- The walk gets to the body of a class that is recognised. -/
theorem goes_header (h : c.Recognised) (hahead : v.ahead = true) (hclass : v.said.head? = some (word "class"))
    (hw : Written c.header v.rest rest) (hend : (lexemes rest).head? = some (mark "\x7b")) : Goes v (v.after c.header rest) := by
  rw [header, ← List.append_assoc] at hw ⊢
  obtain ⟨mid₁, hfirst, hw⟩ := hw.split
  obtain ⟨mid₂, hsecond, hthird⟩ := hw.split
  let w := v.after (c.lead ++ c.base) mid₁
  have hends : EndsReference (said c.base) := endsReference_of_reference c.reference_base
  have hsaid : w.said = (said c.base).reverse ++ word "extends" :: word c.name :: v.said := said_after_extended
  have hlisted : Goes w (w.after c.arguments mid₂) := by
    rcases h.arguments with hnone | hextends
    · rw [hnone] at hsecond ⊢
      exact goes_nil hsecond
    · refine goes_angleList c.angleList_arguments hsecond (.inr (.inr ⟨hahead, ?_⟩))
      rw [hsaid, hends.lastButOne]
      exact hextends
  have hsaid' : (w.after c.arguments mid₂).said = (said c.base).reverse ++ word "extends" :: word c.name :: v.said := by
    rw [View.after, said_of_angleList c.angleList_arguments]
    exact hsaid
  have himplemented : Goes (w.after c.arguments mid₂) ((w.after c.arguments mid₂).after c.implementation rest) :=
    goes_implementation c.implementation_types hthird hend hahead fun e ts he =>
      EndsReference.no_point (v := (w.after c.arguments mid₂).before ts) hends hsaid' he
  exact (goes_extended h.curly hahead hclass hfirst).append (hlisted.append himplemented)

/-- A class that is recognised is passed as a whole. -/
theorem passes {ss : List Sym} (h : c.Recognised) (hbody : Passes .members ss) :
    Passes .declaration (codeWord "class" :: (c.header ++ bracketed .curly ss)) := by
  intro v rest hw hclear
  have hw : Written (codeWord "class" :: codeWord c.name ::
      (c.parameters ++ [codeWord "extends"] ++ (c.base ++ (c.arguments ++ c.implementation)) ++ bracketed .curly ss)) v.rest rest := hw
  obtain ⟨mid₁, hw, hword⟩ := goes_class hw rfl hclear.before
  have hbegun : Goes v ((v.expecting true).after [codeWord "class"] mid₁) := hword.loosen
  have hw : Written (c.header ++ bracketed .curly ss) mid₁ rest := hw
  obtain ⟨mid₂, hfirst, hsecond⟩ := hw.split
  have hcurly : (lexemes mid₂).head? = some (mark "\x7b") := by rw [hsecond.lexemes_eq]; rfl
  have hheader := goes_header (v := (v.expecting true).after [codeWord "class"] mid₁) h rfl rfl hfirst hcurly
  have hall := hbegun.trans (hheader.trans (goes_body hbody hsecond rfl))
  rw [View.after_after, View.after_after, View.expecting_after hclear.open.ahead] at hall
  exact hall

end Headers

end ExtendedClass

/-! ## The bracket that opens the body -/

/-- The walk opens the body of a class behind the symbols, and none before it. -/
def EntersBody (e : Eraser) (ss : List Sym) (rest : List Token) : Prop :=
  ∃ a b, Quietly e a ∧ Steps a b ∧ OpensBody a b ∧ b.outer = e.frame :: e.outer ∧ b.rest = rest ∧
    lexemes b.kept = (said ss).reverse ++ lexemes e.kept

/-- The walk stands at the first token of the class, where a statement may begin. -/
structure BeginsClass (e : Eraser) (c : ExtendedClass) (rest : List Token) : Prop where
  start : e.BeginsStatement
  shaped : ∀ t ∈ e.kept, t.Shaped
  here : ∀ t, e.rest.head? = some t → t.isTrivia = false
  written : Written c.opened e.rest rest

/-- The view behind the word `class`. -/
def View.ofClass (e : Eraser) (us : List Token) : View :=
  ⟨word "class" :: lexemes e.kept, e.frame, e.outer, true, us, false, e.kept.reverse ++ e.rest⟩

section Bodies

variable {e : Eraser} {c : ExtendedClass} {rest : List Token}

/-- Behind the word `class` a class has begun. -/
theorem BeginsClass.step (h : BeginsClass e c rest) :
    ∃ us e', Written (c.header ++ [codeMark "\x7b"]) us rest ∧ QuietStep e e' ∧ (View.ofClass e us).At e' := by
  obtain ⟨start, hshaped, hhere, hw⟩ := h
  obtain ⟨blanks, t, us, hrest, hblanks, _, hcode, hshape, ht, hw⟩ := hw.uncons
  obtain rfl : blanks = [] := by
    cases blanks with
    | nil => rfl
    | cons b blanks =>
      have hb := hhere b (by rw [hrest]; rfl)
      rw [(hblanks b List.mem_cons_self).1] at hb
      nomatch hb
  have ht : t.lexeme = word "class" := ht
  have hname : headIsName (significant us) = true := headIsName_of_written (s := codeWord c.name) hw
  have hstep := step_of_class ht start.point start.point' hname
  refine ⟨us, _, hw, quietStep_of_ne hrest hstep (by rw [ht]; nofun), ?_⟩
  exact {
    said := by
      show lexemes (t :: e.kept) = word "class" :: lexemes e.kept
      rw [lexemes_cons_of_not hcode, ht]
    shaped := List.forall_mem_cons.mpr ⟨hshape, hshaped⟩
    frame := rfl
    outer := rfl
    ahead := rfl
    rest := rfl
    closed := nofun
    tight := nofun
    source := by
      show ((t :: e.kept).reverse ++ us).Sublist (e.kept.reverse ++ e.rest)
      rw [hrest, List.reverse_cons, List.append_assoc]
      exact List.Sublist.refl _ }

/-- The bracket behind the header of a class that is recognised opens its body. -/
theorem entersBody_of_recognised (h : BeginsClass e c rest) (hc : c.Recognised) : EntersBody e c.opened rest := by
  obtain ⟨us, e₀, hw, hclass, he₀⟩ := h.step
  obtain ⟨mid, hfirst, hsecond⟩ := hw.split
  have hheader := ExtendedClass.goes_header (v := View.ofClass e us) hc rfl rfl hfirst (by rw [hsecond.lexemes_eq]; rfl)
  obtain ⟨blanks, t, us', rfl, hblanks, _, _, _, ht, hnil⟩ := hsecond.uncons
  obtain rfl := Written.nil_iff.mp hnil
  have ht : t.lexeme = mark "\x7b" := ht
  have hall : Goes (View.ofClass e us) ((View.ofClass e us).after c.header (t :: us')) :=
    hheader.trans (goes_blanks hblanks rfl rfl)
  have hnone : mark "\x7b" ∉ said c.header := by
    rw [c.said_header, List.mem_cons, List.mem_cons, not_or, not_or]
    exact ⟨nofun, nofun, hc.curly⟩
  obtain ⟨a, hquiet, ha⟩ := hall.quietly rfl (by decide) hnone he₀
  obtain ⟨hstep, hbody⟩ := @step_of_curly a t us' ht ha.ahead
  refine ⟨a, _, .head hclass hquiet, .intro ha.rest hstep, hbody, ?_, rfl, ?_⟩
  · rw [hbody.outer, ha.frame, ha.outer]
    rfl
  · show lexemes (t :: a.kept) = _
    rw [lexemes_cons_of_not (isTrivia_of_mark ht), ht, ha.said, View.after, c.said_header, c.said_opened]
    simp only [View.ofClass, List.reverse_append, List.reverse_cons, List.reverse_nil, List.nil_append, List.append_assoc,
      List.cons_append]

/-- A curly bracket in the class that is extended is taken for the body. -/
theorem not_entersBody_of_curly (h : BeginsClass e c rest) (hcurly : mark "\x7b" ∈ said c.base) : ¬EntersBody e c.opened rest := by
  rintro ⟨a, b, hquiet, hstep, hbody, _, _, hkept⟩
  obtain ⟨us, e₀, hw, hclass, he₀⟩ := h.step
  rw [ExtendedClass.header, List.append_assoc, List.append_assoc] at hw
  obtain ⟨mid₁, hfirst, hw⟩ := hw.split
  obtain ⟨mid₂, hsecond, _⟩ := hw.split
  let v := (View.ofClass e us).after c.lead mid₁
  have hlead : Goes (View.ofClass e us) v := ExtendedClass.goes_lead rfl hfirst
  have hnone : mark "\x7b" ∉ said c.lead := by
    rw [c.said_lead, List.mem_cons, List.mem_singleton, not_or]
    exact ⟨nofun, nofun⟩
  obtain ⟨e₁, hquiet₁, he₁⟩ := hlead.quietly rfl (by decide) hnone he₀
  have hsaid : v.said = word "extends" :: word c.name :: word "class" :: lexemes e.kept := ExtendedClass.said_after_lead
  have hplain : Goes (v.expecting false) ((v.expecting false).after c.base mid₂) :=
    (passes_of_reference c.reference_base (v.expecting false) mid₂ hsecond rfl).loosen
  rcases extended_or_opened hplain rfl (calm_of_reference c.reference_base) hsaid (by decide) he₁ with
    ⟨hnone, _⟩ | ⟨_, a', b', hquiet', hstep', hbody', hlength⟩
  · exact hnone hcurly
  · -- no other body is opened first, and behind this one less code is kept than behind the header
    obtain rfl : b' = b := hquiet.body_unique hstep hbody (.head hclass (hquiet₁.trans hquiet')) hstep' hbody'
    rw [hkept, hsaid, c.said_opened] at hlength
    simp only [List.length_append, List.length_reverse, List.length_cons, List.length_nil] at hlength
    omega

/-- An opening angle bracket that begins no list for the eraser is kept. -/
theorem quietStep_of_angle {t : Token} {us : List Token} (hrest : e.rest = t :: us) (ht : t.lexeme = mark "<")
    (hfinds : Finds (matchAngle (t :: us)) rest) (hlist : e.isTypeParameterList (significant rest) = false) :
    QuietStep e (keep e t us).1 := by
  obtain ⟨r, hr, rfl⟩ := hfinds
  have hstep : step e t us = .ok (keep e t us) := by
    rw [step_of_angle ht, hr]
    exact if_neg (by rw [hlist]; nofun)
  exact quietStep_of_ne hrest hstep (by rw [ht]; nofun)

/-- The walk gets to the type arguments behind the class that is extended. -/
theorem exists_arguments (h : BeginsClass e c rest) (hcurly : mark "\x7b" ∉ said c.base) (hsome : c.arguments ≠ []) :
    ∃ us t ts mid e', Quietly e e' ∧ ((View.ofClass e us).after (c.lead ++ c.base) (t :: ts)).At e' ∧ t.lexeme = mark "<" ∧
      Finds (matchAngle (t :: ts)) mid ∧ Written (c.implementation ++ [codeMark "\x7b"]) mid rest := by
  obtain ⟨us, e₀, hw, hclass, he₀⟩ := h.step
  have hw : Written (c.lead ++ c.base ++ (c.arguments ++ (c.implementation ++ [codeMark "\x7b"]))) us rest := by
    simpa only [ExtendedClass.header, List.append_assoc] using hw
  obtain ⟨mid₁, hfirst, hw⟩ := hw.split
  obtain ⟨mid₂, hsecond, hthird⟩ := hw.split
  obtain ⟨ms, harguments, hfinds⟩ := c.angleList_arguments.finds hsome hsecond
  rw [harguments] at hsecond
  have hextended : Goes (View.ofClass e us) ((View.ofClass e us).after (c.lead ++ c.base) mid₁) :=
    ExtendedClass.goes_extended hcurly rfl rfl hfirst
  obtain ⟨blanks, t, ts, rfl, hblanks, _, hcode, _, ht, _⟩ := hsecond.uncons
  rw [significant_append_of_trivia fun b hb => (hblanks b hb).1, significant_cons_of_not hcode] at hfinds
  have hall : Goes (View.ofClass e us) ((View.ofClass e us).after (c.lead ++ c.base) (t :: ts)) :=
    hextended.trans (goes_blanks hblanks rfl rfl)
  have hnone : mark "\x7b" ∉ said (c.lead ++ c.base) := by
    rw [said_append, c.said_lead, List.mem_append, not_or, List.mem_cons, List.mem_singleton, not_or]
    exact ⟨⟨nofun, nofun⟩, hcurly⟩
  obtain ⟨e₁, hquiet, he₁⟩ := hall.quietly rfl (by decide) hnone he₀
  exact ⟨us, t, ts, mid₂, e₁, .head hclass hquiet, he₁, ht, hfinds, hthird⟩

/-- Type arguments behind another class than a name alone stay in the code. -/
theorem not_entersBody_of_arguments (h : BeginsClass e c rest) (hcurly : mark "\x7b" ∉ said c.base)
    (hplace : ¬(c.arguments = [] ∨ ((said c.base).reverse ++ [word "extends"]).tail.head?.map (·.2) = some "extends")) :
    ¬EntersBody e c.opened rest := by
  rintro ⟨a, b, hquiet, hstep, hbody, _, _, hkept⟩
  obtain ⟨hsome, hextends⟩ := not_or.mp hplace
  obtain ⟨us, t, ts, mid, e₁, hquiet₁, he₁, ht, hfinds, hw⟩ := exists_arguments h hcurly hsome
  have hends : EndsReference (said c.base) := endsReference_of_reference c.reference_base
  have hsaid : ((View.ofClass e us).after (c.lead ++ c.base) (t :: ts)).said =
      (said c.base).reverse ++ word "extends" :: word c.name :: word "class" :: lexemes e.kept := ExtendedClass.said_after_extended
  have hcall : headIn (significant mid) ["("] = false := by
    obtain ⟨s, others, hhead, hs⟩ := exists_head_of_implementation c.implementation_types
    rw [hhead] at hw
    rw [headIn_of_written hw]
    rcases hs with hs | hs <;> rw [hs] <;> rfl
  have hlist : e₁.isTypeParameterList (significant mid) = false := by
    refine hends.isTypeParameterList hsaid he₁ hcall ?_
    rw [hsaid, hends.lastButOne]
    exact hextends
  have hkeep : QuietStep e₁ (keep e₁ t ts).1 := quietStep_of_angle he₁.rest ht hfinds hlist
  -- the angle bracket is in the code for good, where the header has the curly bracket
  have hkept₁ : Quietly e (keep e₁ t ts).1 := hquiet₁.tail hkeep
  have hlater : Quietly (keep e₁ t ts).1 a := hkept₁.before_body hquiet hstep hbody
  have hangle : mark "<" :: lexemes e₁.kept <:+ lexemes (keep e₁ t ts).1.kept := by
    show _ <:+ lexemes (t :: e₁.kept)
    rw [lexemes_cons_of_not (isTrivia_of_mark ht), ht]
  have hsuffix := suffix_of_reaches (by decide) (hlater.reaches.trans (.single hstep)) hangle
  rw [hkept, he₁.said, hsaid, c.said_opened] at hsuffix
  have hsame := hsuffix.eq_of_length (by simp)
  simp at hsame

/-- The bracket behind a class header opens the body of the class, and the header is erased to its code, if and only if no curly bracket
stands in the class that is extended and type arguments stand behind a name. Then of a program that is the class, the code that is kept is
the class without its types. -/
theorem classHeader_entered_iff (c : ExtendedClass) :
    (∀ (e : Eraser) (rest : List Token), BeginsClass e c rest → (EntersBody e c.opened rest ↔ c.Recognised)) ∧
    ∀ (content : String) (ts rest : List Token) (ss : List Sym), tokenize content.toList 0 .first = .ok ts → Core .members ss →
      Written (codeWord "class" :: (c.header ++ bracketed .curly ss)) ts rest → (∀ t ∈ rest, t.isTrivia = true) → c.Recognised →
      ∃ kept specifiers, erase content = .ok ⟨String.join (kept.map (·.text)), specifiers⟩ ∧ kept.Sublist ts ∧
        lexemes kept = word "class" :: word c.name :: word "extends" :: (said c.base ++ said (bracketed .curly ss)) := by
  constructor
  · intro e rest h
    refine ⟨fun henters => ?_, entersBody_of_recognised h⟩
    have hcurly : mark "\x7b" ∉ said c.base := fun hcurly => not_entersBody_of_curly h hcurly henters
    exact ⟨hcurly, not_not.mp fun hplace => not_entersBody_of_arguments h hcurly hplace henters⟩
  · intro content ts rest ss hlex hcore hw hrest hc
    have hclass : Passes .declaration (codeWord "class" :: (c.header ++ bracketed .curly ss)) := ExtendedClass.passes hc (passes_of_core hcore)
    obtain ⟨kept, specifiers, herase, hkept, hsaid⟩ := erase_of_passes hlex (passes_oneStatement (passes_declared hclass)) hw hrest
    refine ⟨kept, specifiers, herase, hkept, hsaid.trans ?_⟩
    rw [codeWord, said_code_cons, said_append, c.said_header]
    rfl

theorem exists_beginsClass (c : ExtendedClass) (content : String) (others : List Lexeme) (hbase : ∀ s ∈ c.base, s.glued = false)
    (h : (tokenize content.toList 0 .first).map (fun ts => (ts.head?.map Token.lexeme, lexemes ts.tail)) =
      .ok (some (word "class"), (c.header ++ [codeMark "\x7b"]).map Sym.lexeme ++ others)) :
    ∃ ts rest, tokenize content.toList 0 .first = .ok ts ∧ BeginsClass (start ts) c rest ∧ (∀ t ∈ ts, t.Shaped) ∧
      lexemes ts = c.opened.map Sym.lexeme ++ others := by
  obtain ⟨t, us, hlex, ht, hlexemes, hshape⟩ := exists_cons_of_tokenize content _ _ h
  have hcode : t.isTrivia = false := isTrivia_of_word ht
  have hall : lexemes (t :: us) = c.opened.map Sym.lexeme ++ others := by
    rw [lexemes_cons_of_not hcode, ht, hlexemes]
    rfl
  obtain ⟨rest, hw, _⟩ := exists_written_of_lexemes (c.glued_opened hbase) hshape hall
  exact ⟨t :: us, rest, hlex, ⟨beginsStatement_start _, List.forall_mem_nil _, fun u hu => Option.some.inj hu ▸ hcode, hw⟩, hshape, hall⟩

theorem classHeader_entered_iff_name : ∃ (c : ExtendedClass) (ts rest rest' : List Token) (ss : List Sym),
    tokenize "class C<P> extends B<T> implements I { x: T; }".toList 0 .first = .ok ts ∧ c.Recognised ∧ BeginsClass (start ts) c rest ∧
      EntersBody (start ts) c.opened rest ∧ Core .members ss ∧
      Written (codeWord "class" :: (c.header ++ bracketed .curly ss)) ts rest' ∧ (∀ t ∈ rest', t.isTrivia = true) ∧
      ∃ kept specifiers, erase "class C<P> extends B<T> implements I { x: T; }" = .ok ⟨String.join (kept.map (·.text)), specifiers⟩ ∧
        kept.Sublist ts ∧
        lexemes kept = [word "class", word "C", word "extends", word "B", mark "\x7b", word "x", mark ";", mark "\x7d"] := by
  have hname : ∀ x ∈ ["T", "I"], TypeText .whole false false [word x] := by
    intro x hx
    have hplain : ∀ x ∈ ["T", "I"], x ∉ typePrefixes := by decide
    exact .whole (.operand (.simple (.based (.named (.plain (hplain x hx) .nil)) .nil)))
  have hlist : ∀ x ∈ ["P", "T"], AngleList [typedMark "<", typedWord x, typedMark ">"] := by
    intro x hx
    have hleaf : ∀ x ∈ ["P", "T"], angleStep x = none ∧ Bracket.opened? x = none ∧ Bracket.closed? x = none ∧ x ≠ ";" := by decide
    obtain ⟨hangle, hopen, hclose, hsemicolon⟩ := hleaf x hx
    exact angleList_of_arguments (.some (.intro (.leaf rfl hangle hopen hclose (fun heq => absurd heq hsemicolon) (.nil false))
      (.lexeme (.lexeme (.one .nil)))))
  let c : ExtendedClass :=
    ⟨"C", [typedMark "<", typedWord "P", typedMark ">"], [codeWord "B"], [typedMark "<", typedWord "T", typedMark ">"],
      [typedWord "implements", typedWord "I"], by decide, hlist "P" (by decide), .name (by decide), hlist "T" (by decide),
      .some (.one (hname "I" (by decide)))⟩
  have hx : Ordinary "x" := by unfold Ordinary; decide
  let ss := [codeWord "x", typedMark ":", typedWord "T", codeMark ";"]
  have hmembers : Core .members ss := .moreMembers (.field (.intro .nil hx .none (.some (hname "T" (by decide)) nofun))) .noMembers
  have hrecognised : c.Recognised := ⟨show mark "\x7b" ∉ [word "B"] by decide, .inr rfl⟩
  have hbase : ∀ s ∈ c.base, s.glued = false := show ∀ s ∈ [codeWord "B"], s.glued = false by decide
  obtain ⟨ts, rest, hlex, hbegins, hshape, hlexemes⟩ := exists_beginsClass c "class C<P> extends B<T> implements I { x: T; }"
    [word "x", mark ":", word "T", mark ";", mark "\x7d"] hbase (by cbv)
  have hglued : ∀ s ∈ codeWord "class" :: (c.header ++ bracketed .curly ss), s.glued = false := by
    have hss : ∀ s ∈ ss ++ [codeMark "\x7d"], s.glued = false := by decide
    exact fun s hs => (List.mem_append.mp (show s ∈ c.opened ++ (ss ++ [codeMark "\x7d"]) from hs)).elim (c.glued_opened hbase s) (hss s)
  obtain ⟨rest', hw, hrest'⟩ := written_of_lexemes hglued hshape hlexemes
  obtain ⟨henters, herased⟩ := classHeader_entered_iff c
  exact ⟨c, ts, rest, rest', ss, hlex, hrecognised, hbegins, (henters _ rest hbegins).mpr hrecognised, hmembers, hw,
    fun t ht => (hrest' t ht).1, herased _ ts rest' ss hlex hmembers hw (fun t ht => (hrest' t ht).1) hrecognised⟩

/-- An object in the class that is extended is taken for the body, and type arguments behind a member of a name stay in the code. -/
theorem classHeader_missed_of_object : ∃ (c c' : ExtendedClass) (ts rest ts' rest' : List Token),
    tokenize "class C extends f({a: 1}) { x: T; }".toList 0 .first = .ok ts ∧ BeginsClass (start ts) c rest ∧
      ¬EntersBody (start ts) c.opened rest ∧
      erase "class C extends f({a: 1}) { x: T; }" = .ok ⟨"class C extends f({a}) { x: T; }", []⟩ ∧
      tokenize "class C extends m.B<T> { x: T; }".toList 0 .first = .ok ts' ∧ BeginsClass (start ts') c' rest' ∧
      ¬EntersBody (start ts') c'.opened rest' ∧
      erase "class C extends m.B<T> { x: T; }" = .ok ⟨"class C extends m.B<T> { x; }", []⟩ := by
  have hnames : ∀ x ∈ ["f", "a", "m"], Ordinary x := by unfold Ordinary; decide
  have harguments : Core (.list .item) _ :=
    .one (.item (.value (.object (.one (@Core.keyed false (word "a") _ (.inl ⟨rfl, hnames "a" (by decide)⟩) (.value (.literal (m := (.number, "1")) rfl)))))))
  have hlist : AngleList [typedMark "<", typedWord "T", typedMark ">"] :=
    angleList_of_arguments (.some (.intro (.leaf rfl rfl rfl rfl (by decide) (.nil false)) (.lexeme (.lexeme (.one .nil)))))
  let c : ExtendedClass :=
    ⟨"C", [], _, [], [], by decide, .none, .call (.primary (.name (hnames "f" (by decide)))) .none harguments, .none, .none⟩
  let c' : ExtendedClass :=
    ⟨"C", [], _, _, [], by decide, .none, @Reference.dot [codeWord "m"] "." "B" (.primary (.name (hnames "m" (by decide)))) (by decide), hlist, .none⟩
  have hbase : ∀ s ∈ c.base, s.glued = false := by
    show ∀ s ∈ [codeWord "f", codeMark "(", codeMark "\x7b", codeWord "a", codeMark ":", code (.number, "1"), codeMark "\x7d", codeMark ")"],
      s.glued = false
    decide
  have hbase' : ∀ s ∈ c'.base, s.glued = false := show ∀ s ∈ [codeWord "m", codeMark ".", codeWord "B"], s.glued = false by decide
  obtain ⟨ts, rest, hlex, hbegins, -, -⟩ := exists_beginsClass c "class C extends f({a: 1}) { x: T; }"
    [word "x", mark ":", word "T", mark ";", mark "\x7d"] hbase (by cbv)
  obtain ⟨ts', rest', hlex', hbegins', -, -⟩ := exists_beginsClass c' "class C extends m.B<T> { x: T; }"
    [word "x", mark ":", word "T", mark ";", mark "\x7d"] hbase' (by cbv)
  have hcurly : mark "\x7b" ∈ said c.base := List.mem_cons_of_mem _ (List.mem_cons_of_mem _ List.mem_cons_self)
  have hcurly' : mark "\x7b" ∉ said c'.base := show mark "\x7b" ∉ [word "m", mark ".", word "B"] by decide
  have hplace : ¬some "." = some "extends" := by decide
  exact ⟨c, c', ts, rest, ts', rest', hlex, hbegins, not_entersBody_of_curly hbegins hcurly, by cbv, hlex', hbegins',
    not_entersBody_of_arguments hbegins' hcurly' (not_or.mpr ⟨List.cons_ne_nil _ _, hplace⟩), by cbv⟩

end Bodies

end ScriptLoader.Syntax
