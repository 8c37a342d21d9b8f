import Mathlib.Logic.Relation
import ScriptLoader.Proofs.Core.Keeping
import ScriptLoader.Proofs.Eraser.Brackets
import ScriptLoader.Proofs.Eraser.Growth

/-!
# A class that has begun

Between the word `class` and the body of the class the eraser remembers that a class has begun. Three tokens mean something else to it
meanwhile: an opening curly bracket, `implements`, and an opening angle bracket behind the name of the class that is extended. At any
other token the step is the one without a class (`step_expecting`).
-/

namespace ScriptLoader.Syntax

namespace Eraser

/-! ## The steps with and without a class -/

/-- The state with a class begun. -/
def expecting (e : Eraser) : Eraser := { e with classAhead := true }

/-- The state behind a step, with a class begun. -/
def expectingNext {ts : List Token} (e : Next ts) : Next ts := ⟨e.1.expecting, e.2⟩

section Expecting

variable {e : Eraser} {t : Token} {ts : List Token}

@[simp] theorem expecting_outer : e.expecting.outer = e.outer := rfl

@[simp] theorem expecting_previousText : e.expecting.previousText = e.previousText := rfl

theorem onTrivia_expecting : onTrivia e.expecting t ts = expectingNext (onTrivia e t ts) := by
  unfold onTrivia
  split
  · split <;> rfl
  · rfl

theorem copyImport_expecting : copyImport e.expecting ts = (copyImport e ts).map fun e' => ⟨e'.1.expecting, e'.2⟩ := by
  induction ts generalizing e with
  | nil => rfl
  | cons t ts ih =>
    have hkeep : (keep e.expecting t ts).1 = (keep e t ts).1.expecting := rfl
    unfold copyImport
    simp only [hkeep, ih]
    split
    · rfl
    split
    · rfl
    cases copyImport (keep e t ts).1 ts <;> rfl

theorem copyExport_expecting : copyExport e.expecting t ts = (copyExport e t ts).map expectingNext := by
  unfold copyExport
  split
  · rfl
  simp only
  split
  · split <;> rfl
  · rfl

theorem retractExport_expecting : e.expecting.retractExport = e.retractExport.expecting := by
  unfold retractExport
  rw [expecting_previousText]
  split <;> rfl

theorem onStatement_expecting : onStatement e.expecting t ts = (onStatement e t ts).map (Option.map expectingNext) := by
  have hskip (r : Tail (t :: ts)) : skipTo e.retractExport.expecting r = expectingNext (skipTo e.retractExport r) := rfl
  have hkeep : (keep e.expecting t ts).1 = (keep e t ts).1.expecting := rfl
  unfold onStatement
  simp only [retractExport_expecting, hskip, hkeep, copyImport_expecting, copyExport_expecting]
  split
  · cases skipInterface ts <;> rfl
  split
  · cases skipTypeAlias (Rest.whole ts).significant.tail.tokens <;> rfl
  split
  · cases skipStatement 0 ts <;> rfl
  split
  · rfl
  split
  · rfl
  split
  · split
    · rfl
    · cases copyImport (keep e t ts).1 ts <;> rfl
  split
  · rfl
  split
  · cases copyExport e t ts <;> rfl
  · rfl

theorem noteWord_expecting (word : String) (next : List Token) :
    e.expecting.noteWord word next = (e.noteWord word next).expecting := by
  unfold noteWord
  split
  · rfl
  split
  · rfl
  split <;> rfl

/-- Two decisions that are the same, with results that correspond. -/
theorem ite_eq_map {ε α β : Type} {f : α → β} {c d : Prop} [Decidable c] [Decidable d] {x y : Except ε β} {u v : Except ε α} (h : c = d)
    (hx : d → x = u.map f) (hy : ¬d → y = v.map f) : (if c then x else y) = (if d then u else v).map f := by
  subst h
  split
  · rename_i hc
    exact hx hc
  · rename_i hc
    exact hy hc

/-- At any word but `implements`, or with a class begun. -/
theorem onWord_expecting (h : t.text = "implements" → e.classAhead = true) :
    onWord e.expecting t ts = (onWord e t ts).map expectingNext := by
  have himplements : (decide (t.text = "implements") && true) = (decide (t.text = "implements") && e.classAhead) := by
    by_cases htext : t.text = "implements"
    · rw [h htext]
    · rw [decide_eq_false htext, Bool.false_and, Bool.false_and]
  unfold onWord
  refine ite_eq_map rfl (fun _ => rfl) fun _ => ?_
  refine ite_eq_map rfl (fun _ => rfl) fun _ => ?_
  refine ite_eq_map rfl (fun _ => by cases skipType ts <;> rfl) fun _ => ?_
  refine ite_eq_map (congrArg (· = true) himplements) (fun _ => by cases skipImplemented ts <;> rfl) fun _ => ?_
  rw [noteWord_expecting]
  rfl

theorem onIdentifier_expecting
    (h : t.text = "implements" → e.previousText = some "." ∨ e.previousText = some "?." ∨ e.classAhead = true) :
    onIdentifier e.expecting t ts = (onIdentifier e t ts).map expectingNext := by
  unfold onIdentifier
  refine ite_eq_map rfl (fun _ => rfl) fun hpoint => ?_
  simp only [Bool.or_eq_true, decide_eq_true_eq, not_or] at hpoint
  have hword : onWord e.expecting t ts = (onWord e t ts).map expectingNext :=
    onWord_expecting fun htext => ((h htext).resolve_left hpoint.1).resolve_left hpoint.2
  refine ite_eq_map rfl (fun _ => by cases skipReceiver ts <;> rfl) fun _ => ?_
  refine ite_eq_map rfl (fun _ => ?_) fun _ => hword
  rw [onStatement_expecting, hword]
  cases onStatement e t ts with
  | error => rfl
  | ok e' => cases e' <;> rfl

theorem onClosing_expecting (b : Bracket) : onClosing e.expecting b t ts = (onClosing e b t ts).map expectingNext := by
  unfold onClosing
  rw [expecting_outer]
  cases e.outer with
  | nil => rfl
  | cons f outer => exact ite_eq_map rfl (fun _ => rfl) fun _ => rfl

theorem onRegex_expecting {n : Nat} (hn : 0 < n) : onRegex e.expecting t ts n hn = (onRegex e t ts n hn).map expectingNext := by
  unfold onRegex
  simp only
  split <;> rfl

/-- With a class begun no fewer lists in angle brackets are erased. -/
theorem isTypeParameterList_expecting {after : List Token} (h : e.isTypeParameterList after = true) :
    e.expecting.isTypeParameterList after = true := by
  unfold isTypeParameterList at h ⊢
  rw [Bool.or_eq_true] at h ⊢
  refine h.imp_right fun h => ?_
  rw [Bool.and_eq_true] at h ⊢
  exact ⟨rfl, h.2⟩

theorem onOpening_expecting {b : Bracket} (h : b ≠ .curly) : onOpening e.expecting b t ts = expectingNext (onOpening e b t ts) := by
  have hb : (b == .curly) = false := beq_eq_false_iff_ne.mpr h
  simp only [onOpening, hb, Bool.false_and]
  rfl

/-- At any mark but an opening curly bracket. An opening angle bracket is either erased without a class, or begins no list. -/
theorem onMark_expecting (hcurly : t.text ≠ "\x7b")
    (hangle : t.text = "<" → ∀ r, matchAngle (t :: ts) = some r → e.isTypeParameterList (significant r.tokens) = true) :
    onMark e.expecting t ts = (onMark e t ts).map expectingNext := by
  unfold onMark
  refine ite_eq_map rfl (fun _ => ite_eq_map rfl (fun _ => rfl) fun _ => rfl) fun _ => ?_
  refine ite_eq_map rfl (fun _ => rfl) fun _ => ?_
  refine ite_eq_map rfl (fun _ => ite_eq_map rfl (fun _ => by cases skipType ts <;> rfl) fun _ => rfl) fun _ => ?_
  refine ite_eq_map rfl (fun htext => ?_) fun _ => ?_
  · cases hr : matchAngle (t :: ts) with
    | none => rfl
    | some r =>
      have hlist := hangle htext r hr
      simp only [hlist, isTypeParameterList_expecting hlist, if_true]
      rfl
  · cases hopened : Bracket.opened? t.text with
    | some b =>
      have hb : b ≠ .curly := by
        rintro rfl
        exact hcurly (Bracket.eq_opener hopened)
      simp only [onOpening_expecting hb]
      rfl
    | none =>
      cases Bracket.closed? t.text with
      | some b => exact onClosing_expecting b
      | none => exact ite_eq_map rfl (fun _ => rfl) fun _ => rfl

theorem onPunctuation_expecting (hcurly : t.text ≠ "\x7b")
    (hangle : t.text = "<" → ∀ r, matchAngle (t :: ts) = some r → e.isTypeParameterList (significant r.tokens) = true) :
    onPunctuation e.expecting t ts = (onPunctuation e t ts).map expectingNext := by
  unfold onPunctuation
  refine ite_eq_map rfl (fun _ => ?_) fun _ => onMark_expecting hcurly hangle
  split
  · exact onRegex_expecting _
  · exact onMark_expecting hcurly hangle

end Expecting

/-! ## What the walk heeds -/

/-- A lexeme that means something to the walk with a class begun, or that begins the declaration of a module, where it stands behind
`before` in the code. -/
def heeds (before : Option Lexeme) (m : Lexeme) : Bool :=
  m == mark "\x7b" || m == mark "<" ||
    ([word "implements", word "import", word "export"].contains m && !(before.any fun p => [".", "?."].contains p.2))

section Heeding

variable {e e' : Eraser} {t : Token} {ts : List Token}

theorem mem_of_heeds {before : Option Lexeme} {m : Lexeme} (h : heeds before m = true) :
    m ∈ [mark "\x7b", mark "<", word "implements", word "import", word "export"] := by
  rw [heeds, Bool.or_eq_true, Bool.or_eq_true, beq_iff_eq, beq_iff_eq, Bool.and_eq_true, List.contains_iff_mem] at h
  rcases h with (h | h) | h
  · exact h ▸ List.mem_cons_self
  · exact h ▸ List.mem_cons_of_mem _ List.mem_cons_self
  · exact List.mem_cons_of_mem _ (List.mem_cons_of_mem _ h.1)

/-- Blanks and comments are not heeded. -/
theorem isTrivia_of_heeds {before : Option Lexeme} (h : heeds before t.lexeme = true) : t.isTrivia = false := by
  have hkinds : ∀ m ∈ [mark "\x7b", mark "<", word "implements", word "import", word "export"], m.1.isTrivia = false := by decide
  exact hkinds t.lexeme (mem_of_heeds h)

/-- Words are heeded where they name no member. -/
theorem heeds_of_word {w : String} (hw : w ∈ ["implements", "import", "export"]) (hpoint : e.previousText ≠ some ".")
    (hpoint' : e.previousText ≠ some "?.") : heeds (lexemes e.kept).head? (word w) = true := by
  have hwords : ∀ w ∈ ["implements", "import", "export"],
      [word "implements", word "import", word "export"].contains (word w) = true := by decide
  have hbefore : ((lexemes e.kept).head?.any fun p => [".", "?."].contains p.2) = false := by
    rw [previousText_eq] at hpoint hpoint'
    cases hm : (lexemes e.kept).head? with
    | none => rfl
    | some m =>
      rw [hm] at hpoint hpoint'
      rw [Option.any_some, Bool.eq_false_iff, Ne, List.contains_iff_mem]
      intro hmem
      rcases List.mem_cons.mp hmem with hmem | hmem
      · exact hpoint (congrArg some hmem)
      · exact hpoint' (congrArg some (List.mem_singleton.mp hmem))
  rw [heeds, hwords w hw, hbefore]
  exact Bool.or_true _

/-- Without a class `implements` is kept. -/
theorem onIdentifier_implements (htext : t.text = "implements") (hahead : e.classAhead = false) :
    onIdentifier e t ts = .ok (keep e t ts) := by
  have hnone : onStatement e t ts = .ok none :=
    onStatement_eq_none ts (htext ▸ by decide) fun hc => absurd (htext ▸ hc) (by decide)
  have hword : onWord e t ts = .ok (keep e t ts) := by
    rw [onWord, htext, hahead]
    rfl
  rw [onIdentifier, hnone, hword, htext, decide_eq_false (by decide : ¬"implements" = "this")]
  simp only [Bool.false_and, Bool.false_eq_true, if_false, ite_self]

theorem kept_of_curly {e' : Next (t :: ts)} (htext : t.text = "\x7b") (h : onMark e t ts = .ok e') : e'.1.kept = t :: e.kept := by
  rw [onMark_of_opener (b := .curly) htext] at h
  obtain rfl := Except.ok.inj h
  rfl

/-- An opening angle bracket stays where it begins no list for the eraser. -/
theorem kept_of_angle {e' : Next (t :: ts)} {r : Tail (t :: ts)} (htext : t.text = "<") (hr : matchAngle (t :: ts) = some r)
    (hlist : ¬e.isTypeParameterList (significant r.tokens) = true) (h : onMark e t ts = .ok e') : e'.1.kept = t :: e.kept := by
  rw [onMark, if_neg (by rw [htext]; decide), decide_eq_false (by rw [htext]; decide), Bool.false_and, if_neg (by decide),
    if_neg (by rw [htext]; decide), if_pos htext, hr] at h
  obtain rfl := Except.ok.inj ((if_neg hlist).symm.trans h)
  rfl

/-- A step at a token that is not heeded, or not kept, is the same with a class begun. -/
theorem step_expecting {e' : Next (t :: ts)} (h : step e t ts = .ok e')
    (hheeds : heeds (lexemes e.kept).head? t.lexeme = true → t.text ∉ ["import", "export"] → e'.1.kept ≠ t :: e.kept) :
    step e.expecting t ts = .ok (expectingNext e') := by
  suffices hstep : step e.expecting t ts = (step e t ts).map expectingNext by rw [hstep, h]; rfl
  unfold step at h ⊢
  refine ite_eq_map rfl (fun _ => by rw [onTrivia_expecting]; rfl) fun htrivia => ?_
  rw [if_neg htrivia] at h
  refine ite_eq_map rfl (fun hkind => onIdentifier_expecting fun htext => ?_) fun hkind => ?_
  · rw [if_pos hkind] at h
    by_contra hnone
    simp only [not_or, Bool.not_eq_true] at hnone
    obtain ⟨hpoint, hpoint', hahead⟩ := hnone
    rw [onIdentifier_implements htext hahead] at h
    obtain rfl := Except.ok.inj h
    refine hheeds ?_ (by rw [htext]; decide) rfl
    rw [Token.lexeme, hkind, htext]
    exact heeds_of_word (by decide) hpoint hpoint'
  rw [if_neg hkind] at h
  refine ite_eq_map rfl (fun hmark => ?_) fun _ => rfl
  rw [if_pos hmark] at h
  have hlexeme {s : String} (htext : t.text = s) : t.lexeme = mark s := by rw [Token.lexeme, hmark, htext]
  have hread (htext : t.text ∈ ["\x7b", "<"]) : onMark e t ts = .ok e' := by
    have hslash : ∀ s ∈ ["\x7b", "<"], s ≠ "/" ∧ s ≠ "/=" := by decide
    obtain ⟨h₁, h₂⟩ := hslash _ htext
    rw [onPunctuation, decide_eq_false h₁, decide_eq_false h₂] at h
    exact h
  refine onPunctuation_expecting (fun htext => ?_) fun htext r hr => ?_
  · exact hheeds (hlexeme htext ▸ rfl) (by rw [htext]; decide) (kept_of_curly htext (hread (by rw [htext]; decide)))
  · by_contra hlist
    exact hheeds (hlexeme htext ▸ rfl) (by rw [htext]; decide) (kept_of_angle htext hr hlist (hread (by rw [htext]; decide)))

end Heeding

/-! ## Opening the body of a class -/

/-- Between the states a bracket is opened as the body of a class. -/
structure OpensBody (e e' : Eraser) : Prop where
  body : e'.frame.classBody = true
  outer : e'.outer = e.frame :: e.outer

section Bodies

variable {e : Eraser} {t : Token} {ts : List Token}

theorem OpensBody.outer_ne {e e' : Eraser} (h : OpensBody e e') : e'.outer ≠ e.outer := fun hsame =>
  List.cons_ne_self e.frame e.outer (h.outer.symm.trans hsame)

theorem lexeme_of_onMark {e' : Next (t :: ts)} (hkind : t.kind = .punctuation) (h : onMark e t ts = .ok e') (hbody : OpensBody e e'.1) :
    t.lexeme = mark "\x7b" ∧ e'.1.kept = t :: e.kept := by
  cases turns_onMark h with
  | same _ hbrackets => exact absurd hbrackets.outer hbody.outer_ne
  | closes _ _ _ houter =>
    have hlength := congrArg List.length houter
    rw [hbody.outer, List.length_cons, List.length_cons] at hlength
    omega
  | @opens b hopened =>
    have htext := Bracket.eq_opener hopened
    rw [onMark_of_opener htext] at h
    obtain rfl := Except.ok.inj h
    have hcurly : (b == .curly && e.classAhead) = true := hbody.body
    obtain rfl : b = .curly := eq_of_beq (Bool.and_eq_true_iff.mp hcurly).1
    exact ⟨by rw [Token.lexeme, hkind, htext]; rfl, rfl⟩

/-- The body of a class is opened by a curly bracket alone. -/
theorem lexeme_of_opensBody {e' : Next (t :: ts)} (h : step e t ts = .ok e') (hbody : OpensBody e e'.1) :
    t.lexeme = mark "\x7b" ∧ e'.1.kept = t :: e.kept := by
  unfold step at h
  split at h
  · obtain rfl := Except.ok.inj h
    exact absurd (sameBrackets_onTrivia e t ts).outer hbody.outer_ne
  split at h
  · exact absurd (sameBrackets_onIdentifier h).outer hbody.outer_ne
  split at h
  · rename_i hkind
    unfold onPunctuation at h
    split at h
    · split at h
      · unfold onRegex at h
        simp only at h
        split at h
        · cases h
        · obtain rfl := Except.ok.inj h
          exact absurd rfl hbody.outer_ne
      · exact lexeme_of_onMark hkind h hbody
    · exact lexeme_of_onMark hkind h hbody
  · obtain rfl := Except.ok.inj h
    exact absurd rfl hbody.outer_ne

/-- With a class begun every curly bracket is the body of a class. -/
theorem step_of_curly (ht : t.lexeme = mark "\x7b") (hahead : e.classAhead = true) :
    step e t ts = .ok (onOpening e .curly t ts) ∧ OpensBody e (onOpening e .curly t ts).1 := by
  obtain ⟨hkind, htext⟩ := lexeme_eq_mark ht
  refine ⟨?_, hahead, rfl⟩
  rw [step_of_other hkind (by rw [htext]; decide), onMark_of_opener (b := .curly) htext]

end Bodies

/-! ## Runs that open no body of a class -/

/-- One step, which opens no body of a class. -/
def QuietStep (e e' : Eraser) : Prop := Steps e e' ∧ ¬OpensBody e e'

/-- A step at another token than an opening curly bracket opens no body of a class. -/
theorem quietStep_of_ne {e : Eraser} {t : Token} {ts : List Token} {e' : Next (t :: ts)} (hrest : e.rest = t :: ts)
    (hstep : step e t ts = .ok e') (ht : t.lexeme ≠ mark "\x7b") : QuietStep e e'.1 :=
  ⟨.intro hrest hstep, fun hbody => ht (lexeme_of_opensBody hstep hbody).1⟩

/-- The walk gets from one state to another and opens no body of a class. -/
abbrev Quietly : Eraser → Eraser → Prop := Relation.ReflTransGen QuietStep

section Quiet

variable {e e' a b : Eraser}

theorem Quietly.reaches (h : Quietly e e') : Reaches e e' := by
  induction h using Relation.ReflTransGen.head_induction_on with
  | refl => exact .refl _
  | head h _ ih => exact .next h.1 ih

/-- The walk makes at most one step. -/
theorem Steps.unique (h : Steps e a) (h' : Steps e b) : a = b := by
  obtain ⟨hrest, hstep⟩ := h
  obtain ⟨hrest', hstep'⟩ := h'
  obtain ⟨rfl, rfl⟩ := List.cons.inj (hrest.symm.trans hrest')
  rw [Except.ok.inj (hstep.symm.trans hstep')]

/-- A run without the body of a class ends before the first one. -/
theorem Quietly.before_body (h : Quietly e e') (hquiet : Quietly e a) (hstep : Steps a b) (hbody : OpensBody a b) : Quietly e' a := by
  induction h using Relation.ReflTransGen.head_induction_on with
  | refl => exact hquiet
  | head h _ ih =>
    rcases hquiet.cases_head with rfl | ⟨c, hc, hquiet⟩
    · exact absurd (h.1.unique hstep ▸ hbody) h.2
    · exact ih (h.1.unique hc.1 ▸ hquiet)

/-- The walk opens one body of a class first. -/
theorem Quietly.body_unique {a' b' : Eraser} (hquiet : Quietly e a) (hstep : Steps a b) (hbody : OpensBody a b) (hquiet' : Quietly e a')
    (hstep' : Steps a' b') (hbody' : OpensBody a' b') : b' = b := by
  rcases (hquiet'.before_body hquiet hstep hbody).cases_head with rfl | ⟨c, hc, _⟩
  · exact hstep'.unique hstep
  · exact absurd (hstep'.unique hc.1 ▸ hbody') hc.2

end Quiet

/-! ## What stays in the code -/

section Staying

variable {e e' : Eraser} {m : Lexeme} {said : List Lexeme}

/-- A run that keeps no curly bracket opens no body of a class. -/
theorem quietly_of_reaches (hrun : Reaches e e') (hm : m.2 ≠ "export") (h : m :: said <:+ lexemes e.kept)
    (hcurly : ∀ S, m :: said <:+ S → ¬mark "\x7b" :: S <:+ lexemes e'.kept) : Quietly e e' := by
  induction hrun with
  | refl => exact .refl
  | next hs hrun ih =>
    refine .head ⟨hs, fun hbody => ?_⟩ (ih (suffix_of_steps hm hs h) hcurly)
    obtain ⟨hrest, hstep⟩ := hs
    obtain ⟨ht, hkept⟩ := lexeme_of_opensBody hstep hbody
    refine hcurly _ h (suffix_of_reaches (by decide) hrun ?_)
    rw [hkept, lexemes_cons_of_not (isTrivia_of_mark ht), ht]

end Staying

/-! ## Runs with and without a class -/

/-- How many opening curly brackets are in the code. -/
def curlies (e : Eraser) : Nat := (lexemes e.kept).count (mark "\x7b")

/-- Between the states the next token is kept, which is heeded, and the code stays from there on. -/
def Heeds (e e' : Eraser) : Prop :=
  ∃ t ts m said, e.rest = t :: ts ∧ heeds (lexemes e.kept).head? t.lexeme = true ∧ m.2 ≠ "export" ∧ m :: said <:+ lexemes e'.kept ∧
    t.lexeme :: lexemes e.kept <:+ m :: said

section Runs

variable {e e' : Eraser}

/-- A step that keeps a curly bracket heeds a token. -/
theorem curlies_of_steps (hs : Steps e e') (h : ¬Heeds e e') : e'.curlies ≤ e.curlies := by
  unfold curlies
  rcases moves_or_splices hs with ⟨taken, hrest, -, hshed | ⟨hkept, t, us, rfl, hone⟩⟩ | ⟨t, ts, n, -, -, -, -, -, hkept⟩
  · exact (hshed.suffix.sublist.filter _ |>.map _).count_le _
  · by_contra hmore
    rw [hkept, lexemes_append, List.count_append, Nat.not_le, Nat.lt_add_left_iff_pos, List.count_pos_iff, List.reverse_cons,
      lexemes_append] at hmore
    rw [List.reverse_cons, List.append_assoc] at hkept
    rcases List.mem_append.mp hmore with hmem | hmem
    · -- the bracket stands in the declaration of a module, whose first word is heeded
      obtain ⟨before, behind, hbracket⟩ := List.append_of_mem hmem
      have hmodule : BeginsModule e t := hone.resolve_left fun hnil => by
        rw [hnil] at hmem
        exact absurd hmem List.not_mem_nil
      have hword : t.isTrivia = false := by rw [Token.isTrivia, hmodule.kind]; rfl
      have hall : lexemes e'.kept = before ++ mark "\x7b" :: (behind ++ t.lexeme :: lexemes e.kept) := by
        rw [hkept, lexemes_append, hbracket, List.append_assoc]
        exact congrArg (fun x => before ++ mark "\x7b" :: (behind ++ x)) (lexemes_cons_of_not hword e.kept)
      refine h ⟨t, _, mark "\x7b", behind ++ t.lexeme :: lexemes e.kept, hrest, ?_, by decide, ⟨before, hall.symm⟩, ?_⟩
      · rw [Token.lexeme, hmodule.kind]
        exact heeds_of_word (List.mem_cons_of_mem _ hmodule.text) hmodule.point hmodule.point'
      · exact (List.suffix_append behind _).trans (List.suffix_cons _ _)
    · have hword : t.isTrivia = false := by
        by_contra htrivia
        rw [lexemes_cons_of_trivia (Bool.not_eq_false _ ▸ htrivia)] at hmem
        exact absurd hmem List.not_mem_nil
      rw [lexemes_cons_of_not hword, lexemes_nil, List.mem_singleton] at hmem
      refine h ⟨t, _, t.lexeme, lexemes e.kept, hrest, ?_, ?_, ⟨lexemes us.reverse, ?_⟩, List.suffix_refl _⟩
      · rw [← hmem]
        rfl
      · rw [← hmem]
        decide
      · rw [hkept, lexemes_append, List.singleton_append, lexemes_cons_of_not hword]
  · rw [hkept, lexemes_cons_of_not rfl, List.count_cons_of_ne]
    exact fun heq => TokenKind.noConfusion (congrArg Prod.fst heq)

/-- A step that heeds no token is the same with a class begun, and opens no body of a class. -/
theorem quietStep_expecting (hs : Steps e e') (h : ¬Heeds e e') : QuietStep e.expecting e'.expecting := by
  obtain ⟨hrest, hstep⟩ := hs
  rename_i t ts e'
  have hexpecting := step_expecting hstep fun hheeds hmodule hkept => by
    refine h ⟨t, ts, t.lexeme, lexemes e.kept, hrest, hheeds, fun hexport => hmodule ?_, ?_, List.suffix_refl _⟩
    · exact List.mem_cons_of_mem _ (List.mem_singleton.mpr hexport)
    · rw [hkept, lexemes_cons_of_not (isTrivia_of_heeds hheeds)]
  refine ⟨@Steps.intro _ t ts (expectingNext e') hrest hexpecting, fun hbody => ?_⟩
  obtain ⟨ht, hkept⟩ := lexeme_of_opensBody hexpecting hbody
  refine h ⟨t, ts, t.lexeme, lexemes e.kept, hrest, ht ▸ rfl, ?_, ?_, List.suffix_refl _⟩
  · rw [ht]
    decide
  · rw [← lexemes_cons_of_not (isTrivia_of_mark ht)]
    exact hkept ▸ List.suffix_refl _

/-- A run goes on in the same way with a class begun and opens no body of a class, up to the first token that is heeded. -/
theorem quietly_expecting (hrun : Reaches e e') :
    (Quietly e.expecting e'.expecting ∧ e'.curlies ≤ e.curlies) ∨
      ∃ e₁ t ts, Reaches e e₁ ∧ Quietly e.expecting e₁.expecting ∧ e₁.curlies ≤ e.curlies ∧ e₁.rest = t :: ts ∧
        heeds (lexemes e₁.kept).head? t.lexeme = true ∧ t.lexeme :: lexemes e₁.kept <:+ lexemes e'.kept := by
  induction hrun with
  | refl e => exact .inl ⟨.refl, Nat.le_refl _⟩
  | @next e e₂ e' hs hrun ih =>
    by_cases h : Heeds e e₂
    · obtain ⟨t, ts, m, said, hrest, hheeds, hm, hkept, hsuffix⟩ := h
      exact .inr ⟨e, t, ts, .refl e, .refl, Nat.le_refl _, hrest, hheeds, hsuffix.trans (suffix_of_reaches hm hrun hkept)⟩
    · have hquiet := quietStep_expecting hs h
      have hcurlies := curlies_of_steps hs h
      rcases ih with ⟨hrun, hle⟩ | ⟨e₁, t, ts, hreach, hrun, hle, hrest⟩
      · exact .inl ⟨.head hquiet hrun, Nat.le_trans hle hcurlies⟩
      · exact .inr ⟨e₁, t, ts, .next hs hreach, .head hquiet hrun, Nat.le_trans hle hcurlies, hrest⟩

end Runs

end Eraser

end ScriptLoader.Syntax
