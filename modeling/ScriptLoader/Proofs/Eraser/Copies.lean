import ScriptLoader.Proofs.Core.Keeping
import ScriptLoader.Proofs.Eraser.Growth
import ScriptLoader.Proofs.Eraser.Subsequence
import ScriptLoader.Proofs.Lexer.Literals
import ScriptLoader.Proofs.Lexer.Readback

/-!
# Copying a source

A source comes out as it is where the walk keeps each of its tokens. Of a part of a source that is said to be decided by a property of it
(`Decides`): where the property holds, the walk copies the part, and where it does not, the walk is refused, loses some of the text for
good or notes a module. Such parts are put together, lexeme by lexeme, to a whole source (`erase_eq_iff_of_through`).
-/

namespace ScriptLoader.Syntax

open Eraser

/-! ## Losing text -/

/-- The text of some tokens of which the latest is the first. -/
def textBehind (before : List Token) : List Char := sourceText before.reverse

theorem textBehind_cons (t : Token) (ts : List Token) : textBehind (t :: ts) = textBehind ts ++ t.text.toList := by
  rw [textBehind, List.reverse_cons, sourceText_append, sourceText_cons, sourceText_nil, List.append_nil, textBehind]

theorem textBehind_append (ts us : List Token) : textBehind (ts ++ us) = textBehind us ++ textBehind ts := by
  rw [textBehind, List.reverse_append, sourceText_append, textBehind, textBehind]

namespace Eraser

variable {e e' : Eraser}

/-- Some of the text passed was not kept, or a module was noted. -/
def Spoilt (e : Eraser) : Prop := (textBehind e.kept).length < (textBehind e.passed).length ∨ e.specifiers ≠ []

theorem Spoilt.step (h : Spoilt e) (hs : Steps e e') : Spoilt e' := by
  rcases h with hless | hnoted
  · refine .inl ?_
    rcases moves_or_splices hs with ⟨taken, -, hpassed, hsheds | ⟨hkept, -⟩⟩ | ⟨t, ts, n, -, -, -, -, hpassed, hkept⟩
    · obtain ⟨shed, hshed⟩ := hsheds.suffix
      rw [← hshed, textBehind_append, List.length_append] at hless
      rw [hpassed, textBehind_append, List.length_append]
      omega
    · rw [hpassed, hkept, textBehind_append, textBehind_append, List.length_append, List.length_append]
      omega
    · rw [hpassed, hkept, textBehind_cons, textBehind_cons, List.length_append, List.length_append]
      omega
  · obtain ⟨more, hmore⟩ := specifiers_of_steps hs
    exact .inr (hmore ▸ List.append_ne_nil_of_right_ne_nil more hnoted)

/-- The walk is refused from here on, or it is spoilt where it ends. -/
def Lost (e : Eraser) : Prop := ∀ e', walk e = .ok e' → Spoilt e'

theorem Spoilt.lost (h : Spoilt e) : Lost e := fun _ hwalk => (reaches_of_walk hwalk).1.preserves Spoilt.step h

theorem Lost.of_reaches (hrun : Reaches e e') (h : Lost e') : Lost e := fun last hwalk => h last (hrun.walk_eq.symm.trans hwalk)

theorem Lost.of_error {t : Token} {ts : List Token} {r : Refusal} (hrest : e.rest = t :: ts) (h : step e t ts = .error r) : Lost e := by
  intro last hwalk
  cases (walk_of_error hrest h).symm.trans hwalk

/-- What brackets are open, and whether a class has begun. -/
structure Scope where
  frame : Frame
  outer : List Frame
  ahead : Bool

def scope (e : Eraser) : Scope := ⟨e.frame, e.outer, e.classAhead⟩

/-- Before a token is kept, nothing but the scope changes. -/
structure Prepares (e e₁ : Eraser) (s : Scope) : Prop where
  passed : e₁.passed = e.passed
  kept : e₁.kept = e.kept
  specifiers : e₁.specifiers = e.specifiers
  scope : e₁.scope = s

end Eraser

/-! ## Reading a text -/

/-- The tokens `after` read a text behind `before`, and `us` is what the lexer makes of it, which reads no regular expressions. -/
structure Reads (before after us : List Token) : Prop where
  tiled : Tiled (Position.first.advance (textBehind before)) (textBehind before).length [] after
  blank : ∀ t ∈ after, t.isTrivia = true → t.kind = .blank
  lexed : lexFrom (Position.first.advance (textBehind before)) (textBehind before).length (sourceText after) = .ok us

namespace Reads

variable {before after us : List Token} {t : Token}

theorem tail_of_lexed (h : Reads before (t :: after) us) {vs : List Token}
    (hvs : lexFrom ((Position.first.advance (textBehind before)).advance t.text.toList)
      ((textBehind before).length + t.text.toList.length) (sourceText after) = .ok vs) : Reads (t :: before) after vs := by
  obtain ⟨⟨-, -, -, htiled⟩, hblank, -⟩ := h
  refine ⟨?_, fun u hu => hblank u (List.mem_cons_of_mem _ hu), ?_⟩
  · rw [textBehind_cons, Position.advance_append, List.length_append]
    exact htiled
  · rw [textBehind_cons, Position.advance_append, List.length_append]
    exact hvs

/-- Where no regular expression is read, the lexer makes the same token. -/
theorem next (h : Reads before (t :: after) us) (hkind : t.kind ≠ .regex) : ∃ vs, us = t :: vs ∧ Reads (t :: before) after vs := by
  obtain ⟨hposition, hstart, hread, -⟩ := h.tiled
  rw [List.append_nil] at hread
  have hlexed := h.lexed
  rw [sourceText_cons, lexFrom_append (hread.resolve_right fun hregex => hkind hregex.1)] at hlexed
  obtain ⟨vs, hvs, rfl⟩ := ok_of_map hlexed
  refine ⟨vs, ?_, h.tail_of_lexed hvs⟩
  rw [String.ofList_toList, ← hposition, ← hstart]

theorem shaped (h : Reads before (t :: after) us) : t.Shaped ∨ t.kind = .regex := h.tiled.2.2.1.shaped

theorem text_pos (h : Reads before (t :: after) us) : 0 < t.text.toList.length := h.tiled.2.2.1.ne_nil

theorem regexLength_eq (h : Reads before (t :: after) us) (hkind : t.kind = .regex) :
    regexLength (sourceText (t :: after)) = some t.text.toList.length := by
  obtain ⟨-, -, hread, -⟩ := h.tiled
  rw [List.append_nil] at hread
  rcases hread with hread | ⟨-, hread⟩
  · have hshape := (shape_of_lexemeLength hread).2.2
    rw [hkind] at hshape
    exact hshape.elim
  · exact hread

/-- Where a regular expression is read, the lexer makes a slash, perhaps with an equals sign. -/
theorem slash (h : Reads before (t :: after) us) (hkind : t.kind = .regex) :
    ∃ v vs, us = v :: vs ∧ v.kind = .punctuation ∧ (v.text = "/" ∨ v.text = "/=") ∧ v.start = t.start ∧ v.position = t.position := by
  obtain ⟨hposition, hstart, -⟩ := h.tiled
  have hlength := h.regexLength_eq hkind
  have hlexed := h.lexed
  generalize sourceText (t :: after) = cs at hlength hlexed
  unfold regexLength at hlength
  split at hlength
  · rename_i c cs
    split at hlength
    · cases hlength
    rename_i hc
    simp only [Bool.or_eq_true, decide_eq_true_eq, not_or] at hc
    have hread := lexemeLength_slash (c := c) (by simp [hc]) cs
    by_cases heq : c = '='
    · subst heq
      rw [show '/' :: '=' :: cs = ['/', '='] ++ cs from rfl, lexFrom_append hread] at hlexed
      obtain ⟨vs, -, rfl⟩ := ok_of_map hlexed
      exact ⟨_, vs, rfl, rfl, .inr rfl, hstart.symm, hposition.symm⟩
    · rw [if_neg heq] at hread
      rw [show '/' :: c :: cs = ['/'] ++ c :: cs from rfl, lexFrom_append hread] at hlexed
      obtain ⟨vs, -, rfl⟩ := ok_of_map hlexed
      exact ⟨_, vs, rfl, rfl, .inl rfl, hstart.symm, hposition.symm⟩
  · cases hlength

/-- The lexer finds the next lexeme, or the slash of a regular expression. -/
theorem head (h : Reads before after us) {m : Lexeme} (hm : (lexemes after).head? = some m) :
    (m.1 ≠ .regex → (lexemes us).head? = some m) ∧
      (m.1 = .regex → ∃ s ∈ ["/", "/="], (lexemes us).head? = some (mark s)) := by
  induction after generalizing before us with
  | nil => cases hm
  | cons t after ih =>
    cases htrivia : t.isTrivia with
    | true =>
      have hkind : t.kind ≠ .regex := by rw [h.blank t List.mem_cons_self htrivia]; decide
      obtain ⟨vs, rfl, hvs⟩ := h.next hkind
      rw [lexemes_cons_of_trivia htrivia] at hm ⊢
      exact ih hvs hm
    | false =>
      rw [lexemes_cons_of_not htrivia] at hm
      obtain rfl := Option.some.inj hm
      constructor
      · intro hkind
        obtain ⟨vs, rfl, -⟩ := h.next hkind
        rw [lexemes_cons_of_not htrivia]
        rfl
      · intro hkind
        obtain ⟨v, vs, rfl, hv, htext, -⟩ := h.slash hkind
        have hother : v.isTrivia = false := by rw [Token.isTrivia, hv]; rfl
        refine ⟨v.text, by rcases htext with h | h <;> rw [h] <;> decide, ?_⟩
        rw [lexemes_cons_of_not hother, Token.lexeme, hv]
        rfl

end Reads

/-! ## Places -/

/-- A place between tokens of a source, with what the walk knows there. Of the tokens before it the latest is the first. -/
structure Place where
  before : List Token
  after : List Token
  scope : Scope

/-- The walk has got to the place. It has kept all tokens before it and noted no module. -/
structure Place.At (p : Place) (e : Eraser) : Prop where
  passed : e.passed = p.before
  kept : e.kept = p.before
  specifiers : e.specifiers = []
  scope : e.scope = p.scope
  shaped : ∀ t ∈ p.before, t.Shaped ∨ t.kind = .regex
  reads : Reads p.before p.after e.rest

/-- The walk copies what stands between two places. -/
def Copies (p q : Place) : Prop := ∀ e, p.At e → ∃ e', Reaches e e' ∧ q.At e'

/-- From the place on the walk does not copy the source. -/
def Strays (p : Place) : Prop := ∀ e, p.At e → Lost e

/-- The walk copies what stands between two places exactly where the property holds. -/
structure Decides (P : Prop) (p q : Place) : Prop where
  copies : P → Copies p q
  strays : ¬P → Strays p

section Places

variable {p q r : Place} {P Q : Prop} {t : Token} {after : List Token} {s : Scope}

theorem Copies.refl (p : Place) : Copies p p := fun e he => ⟨e, .refl e, he⟩

theorem Copies.trans (h : Copies p q) (h' : Copies q r) : Copies p r := by
  intro e he
  obtain ⟨e₁, hrun₁, he₁⟩ := h e he
  obtain ⟨e₂, hrun₂, he₂⟩ := h' e₁ he₁
  exact ⟨e₂, hrun₁.trans hrun₂, he₂⟩

theorem Strays.before (h : Copies p q) (h' : Strays q) : Strays p := by
  intro e he
  obtain ⟨e₁, hrun, he₁⟩ := h e he
  exact (h' e₁ he₁).of_reaches hrun

theorem Decides.of_copies (hP : P) (h : Copies p q) : Decides P p q := ⟨fun _ => h, fun hnot => absurd hP hnot⟩

theorem Decides.congr (h : Decides P p q) (hiff : Q ↔ P) : Decides Q p q :=
  ⟨fun hQ => h.copies (hiff.mp hQ), fun hQ => h.strays fun hP => hQ (hiff.mpr hP)⟩

theorem Decides.trans (h : Decides P p q) (h' : Decides Q q r) : Decides (P ∧ Q) p r := by
  refine ⟨fun ⟨hP, hQ⟩ => (h.copies hP).trans (h'.copies hQ), fun hnot => ?_⟩
  by_cases hP : P
  · exact .before (h.copies hP) (h'.strays fun hQ => hnot ⟨hP, hQ⟩)
  · exact h.strays hP

/-- The next token is kept. -/
theorem copies_of_step (hafter : p.after = t :: after) (hkind : t.kind ≠ .regex)
    (hstep : ∀ e us, p.At e → Reads (t :: p.before) after us → ∃ e₁, step e t us = .ok (keep e₁ t us) ∧ Prepares e e₁ s) :
    Copies p ⟨t :: p.before, after, s⟩ := by
  intro e he
  have hreads := he.reads
  rw [hafter] at hreads
  obtain ⟨us, hrest, hus⟩ := hreads.next hkind
  obtain ⟨e₁, hs, hsame⟩ := hstep e us he hus
  refine ⟨(keep e₁ t us).1, .single (.intro hrest hs), ?_, ?_, hsame.specifiers.trans he.specifiers, hsame.scope,
    List.forall_mem_cons.mpr ⟨hreads.shaped, he.shaped⟩, hus⟩
  · show t :: e₁.passed = t :: p.before
    rw [hsame.passed, he.passed]
  · show t :: e₁.kept = t :: p.before
    rw [hsame.kept, he.kept]

theorem copies_blanks {blanks : List Token} (hafter : p.after = blanks ++ after) (hblanks : ∀ b ∈ blanks, b.isTrivia = true) :
    Copies p ⟨blanks.reverse ++ p.before, after, p.scope⟩ := by
  induction blanks generalizing p with
  | nil =>
    obtain ⟨before, _, scope⟩ := p
    obtain rfl : _ = after := hafter
    exact .refl _
  | cons b blanks ih =>
    obtain ⟨hb, hblanks⟩ := List.forall_mem_cons.mp hblanks
    have hmore := ih (p := ⟨b :: p.before, blanks ++ after, p.scope⟩) rfl hblanks
    rw [List.reverse_cons, List.append_assoc]
    intro e he
    have hblank : b.kind = .blank := he.reads.blank b (hafter ▸ List.mem_cons_self) hb
    have hfirst : Copies p ⟨b :: p.before, blanks ++ after, p.scope⟩ := by
      refine copies_of_step hafter (by rw [hblank]; decide) fun e us he _ => ⟨e, ?_, rfl, rfl, rfl, he.scope⟩
      rw [step, if_pos hb, onTrivia, if_neg (by rw [hblank]; decide)]
    exact hfirst.trans hmore e he

end Places

/-! ## Parts of a source -/

/-- Each of the tokens, behind `before` and in front of `after`, is as `P` says, of the tokens before it, itself, and those after it. -/
def Everywhere (P : List Token → Token → List Token → Prop) (before : List Token) : List Token → List Token → Prop
  | [], _ => True
  | t :: ts, after => P before t (ts ++ after) ∧ Everywhere P (t :: before) ts after

instance Everywhere.decidable {P : List Token → Token → List Token → Prop} [∀ before t after, Decidable (P before t after)]
    (before after : List Token) : (ts : List Token) → Decidable (Everywhere P before ts after)
  | [] => inferInstanceAs (Decidable True)
  | t :: ts =>
    have := Everywhere.decidable (P := P) (t :: before) after ts
    inferInstanceAs (Decidable (P before t (ts ++ after) ∧ Everywhere P (t :: before) ts after))

section Parts

variable {P : List Token → Token → List Token → Prop}

theorem everywhere_append {before ts us after : List Token} :
    Everywhere P before (ts ++ us) after ↔ Everywhere P before ts (us ++ after) ∧ Everywhere P (ts.reverse ++ before) us after := by
  induction ts generalizing before with
  | nil => simp [Everywhere]
  | cons t ts ih =>
    simp only [List.cons_append, Everywhere, ih, List.reverse_cons, List.append_assoc, List.nil_append, and_assoc]

/-- Blank space and comments are as `P` says. -/
def SparesTrivia (P : List Token → Token → List Token → Prop) : Prop := ∀ before t after, t.isTrivia = true → P before t after

theorem everywhere_of_trivia (hP : SparesTrivia P) {before blanks after : List Token} (hblanks : ∀ b ∈ blanks, b.isTrivia = true) :
    Everywhere P before blanks after := by
  induction blanks generalizing before with
  | nil => trivial
  | cons b blanks ih =>
    obtain ⟨hb, hblanks⟩ := List.forall_mem_cons.mp hblanks
    exact ⟨hP _ _ _ hb, ih hblanks⟩

/-- The next part of the source says the lexemes `ms`, and `others` follow. The walk copies it, and gets into the scope, exactly where `C`
holds and the tokens of the part are as `P` says. -/
def Through (P : List Token → Token → List Token → Prop) (C : Prop) (p : Place) (ms others : List Lexeme) (s : Scope) : Prop :=
  ∃ part after, p.after = part ++ after ∧ lexemes part = ms ∧ lexemes after = others ∧
    Decides (C ∧ Everywhere P p.before part after) p ⟨part.reverse ++ p.before, after, s⟩

/-- Blank space, the token of the next lexeme, and what follows. -/
theorem exists_of_lexemes {ts : List Token} {m : Lexeme} {ms : List Lexeme} (h : lexemes ts = m :: ms) :
    ∃ blanks t us, ts = blanks ++ t :: us ∧ (∀ b ∈ blanks, b.isTrivia = true) ∧ t.isTrivia = false ∧ t.lexeme = m ∧ lexemes us = ms := by
  obtain ⟨blanks, hts, hblanks⟩ := eq_trivia_append_significant ts
  rcases significant_cases ts with ⟨_, hl⟩ | ⟨t, us, hs, ht, hl⟩
  · cases hl.symm.trans h
  · obtain ⟨hm, hms⟩ := List.cons.inj (hl.symm.trans h)
    exact ⟨blanks, t, us, hs ▸ hts, hblanks, ht, hm, hms⟩

theorem lexemes_of_trivia {ts : List Token} (h : ∀ t ∈ ts, t.isTrivia = true) : lexemes ts = [] := by
  rw [lexemes, meaning_of_trivia h, List.map_nil]

namespace Through

variable {C D : Prop} {p : Place} {m : Lexeme} {ms others : List Lexeme} {r s : Scope}

theorem congr (h : Through P C p ms others s) (hiff : D ↔ C) : Through P D p ms others s := by
  obtain ⟨part, after, hafter, hms, hothers, hdecides⟩ := h
  exact ⟨part, after, hafter, hms, hothers, hdecides.congr (and_congr_left' hiff)⟩

/-- One part and the next. -/
theorem trans (ns : List Lexeme) (h : Through P C p ms (ns ++ others) r)
    (h' : ∀ q : Place, q.scope = r → lexemes q.before = ms.reverse ++ lexemes p.before → lexemes q.after = ns ++ others →
      Through P D q ns others s) : Through P (C ∧ D) p (ms ++ ns) others s := by
  obtain ⟨part, after, hafter, rfl, hothers, hdecides⟩ := h
  obtain ⟨part', after', rfl, rfl, hothers', hdecides'⟩ :=
    h' ⟨part.reverse ++ p.before, after, r⟩ rfl (by rw [lexemes_append, lexemes_reverse]) hothers
  refine ⟨part ++ part', after', by rw [hafter, List.append_assoc], lexemes_append part part', hothers', ?_⟩
  rw [List.reverse_append, List.append_assoc]
  refine (hdecides.trans hdecides').congr ?_
  rw [everywhere_append, and_and_and_comm]

theorem nil (hscope : p.scope = s) (hothers : lexemes p.after = others) : Through P True p [] others s := by
  subst hscope
  exact ⟨[], p.after, rfl, rfl, hothers, .of_copies ⟨trivial, trivial⟩ (.refl p)⟩

/-- One lexeme. -/
theorem token (h : lexemes p.after = m :: others) (hP : SparesTrivia P)
    (hdecides : ∀ q t after, q.after = t :: after → t.lexeme = m → lexemes after = others → lexemes q.before = lexemes p.before →
      q.scope = p.scope → Decides (C ∧ P q.before t after) q ⟨t :: q.before, after, s⟩) : Through P C p [m] others s := by
  obtain ⟨blanks, t, after, hafter, hblanks, ht, hm, hothers⟩ := exists_of_lexemes h
  refine ⟨blanks ++ [t], after, by rw [hafter, List.append_assoc]; rfl, ?_, hothers, ?_⟩
  · rw [lexemes_append, lexemes_of_trivia hblanks, List.nil_append, lexemes_cons_of_not ht, hm]
    rfl
  · -- the blank space is copied whatever the property says of the token behind it
    have hbefore : lexemes (blanks.reverse ++ p.before) = lexemes p.before := by
      rw [lexemes_append, lexemes_reverse, lexemes_of_trivia hblanks]
      rfl
    have hone := hdecides ⟨blanks.reverse ++ p.before, t :: after, p.scope⟩ t after rfl hm hothers hbefore rfl
    have hspared : Everywhere P p.before blanks (t :: after) := everywhere_of_trivia hP hblanks
    have hgap := Decides.of_copies hspared (copies_blanks hafter hblanks)
    rw [List.reverse_append]
    refine (hgap.trans hone).congr ?_
    rw [everywhere_append]
    simp only [Everywhere, and_true, List.singleton_append, List.nil_append]
    exact and_left_comm

end Through

/-- What the walk knows in front of a token, behind which `others` follow, and at the token. -/
structure Meets (p : Place) (others : List Lexeme) (e : Eraser) (us : List Token) : Prop where
  said : lexemes e.kept = lexemes p.before
  scope : e.scope = p.scope
  shaped : ∀ t ∈ e.kept, t.Shaped ∨ t.kind = .regex
  next : ∀ m, others.head? = some m →
    (m.1 ≠ .regex → (lexemes us).head? = some m) ∧ (m.1 = .regex → ∃ s ∈ ["/", "/="], (lexemes us).head? = some (mark s))

/-- One lexeme that is kept. -/
theorem through_kept {p : Place} {m : Lexeme} {others : List Lexeme} {s : Scope} (h : lexemes p.after = m :: others) (hP : SparesTrivia P)
    (hkind : m.1 ≠ .regex) (hm : ∀ before t after, t.lexeme = m → P before t after)
    (hstep : ∀ t e us, t.lexeme = m → Meets p others e us → ∃ e₁, step e t us = .ok (keep e₁ t us) ∧ Prepares e e₁ s) :
    Through P True p [m] others s := by
  refine .token h hP fun q t after hafter ht hothers hbefore hscope => .of_copies ⟨trivial, hm _ t _ ht⟩ ?_
  refine copies_of_step hafter (by rw [show t.kind = m.1 from congrArg Prod.fst ht]; exact hkind) fun e us he hus => hstep t e us ht ?_
  refine ⟨by rw [he.kept, hbefore], he.scope.trans hscope, he.kept ▸ he.shaped, fun n hn => hus.head (by rw [hothers]; exact hn)⟩

end Parts

/-! ## Whole sources -/

/-- The text can be cut into tokens up to its end. -/
def Lexable (cs : List Char) : Prop := ∃ us, lexFrom .first 0 cs = .ok us

theorem lexable_iff {cs : List Char} (p : Position) (start : Nat) : Lexable cs ↔ ∃ us, lexFrom p start cs = .ok us := by
  have hany (p : Position) (start : Nat) : (∃ us, lexFrom p start cs = .ok us) ↔ ∃ ms, Says cs ms :=
    ⟨fun ⟨us, hus⟩ => ⟨_, (says_iff_lexFrom p start).mpr ⟨us, hus, rfl⟩⟩,
      fun ⟨_, hms⟩ => ((says_iff_lexFrom p start).mp hms).imp fun _ h => h.1⟩
  exact (hany .first 0).trans (hany p start).symm

/-- The source is the tokens, with nothing but blank space between them, and they say the lexemes. -/
structure Spells (content : List Char) (ts : List Token) (ms : List Lexeme) : Prop where
  text : sourceText ts = content
  tiled : Tiled .first 0 [] ts
  blank : ∀ t ∈ ts, t.isTrivia = true → t.kind = .blank
  lexemes : lexemes ts = ms

theorem isOk_lexFrom_iff {cs : List Char} : (lexFrom .first 0 cs).isOk = true ↔ Lexable cs := by
  rw [Lexable]
  cases lexFrom .first 0 cs with
  | error stray => exact iff_of_false Bool.false_ne_true (by rintro ⟨us, h⟩; cases h)
  | ok us => exact iff_of_true rfl ⟨us, rfl⟩

instance (cs : List Char) : Decidable (Lexable cs) := decidable_of_iff _ isOk_lexFrom_iff

/-- What the lexer makes of a source without comments spells the source. -/
theorem exists_spells (P : List Token → Token → List Token → Prop) [∀ before t after, Decidable (P before t after)] (plain : Bool)
    {cs : List Char} {ms : List Lexeme}
    (h : (lexFrom .first 0 cs).map (fun ts =>
      (lexemes ts, ts.all fun t => !t.isTrivia || t.kind == .blank, decide (Everywhere P [] ts []))) = .ok (ms, true, plain)) :
    Lexable cs ∧ ∃ ts, Spells cs ts ms ∧ (Everywhere P [] ts [] ↔ plain = true) := by
  obtain ⟨ts, hts, heq⟩ := ok_of_map h
  obtain ⟨rfl, hchecks⟩ := Prod.mk.inj heq
  obtain ⟨hblanks, rfl⟩ := Prod.mk.inj hchecks
  refine ⟨⟨ts, hts⟩, ts, ⟨sourceText_lexFrom hts, tiled_of_lexFrom hts, fun t ht htrivia => ?_, rfl⟩, decide_eq_true_iff.symm⟩
  have hblank := List.all_eq_true.mp hblanks t ht
  rw [htrivia] at hblank
  exact eq_of_beq hblank

section Whole

variable {content : String} {ts us : List Token} {e : Eraser}

/-- A walk that is spoilt does not give the source back. -/
theorem not_erase_eq_of_lost (hlex : tokenize content.toList 0 .first = .ok us) (hlost : Lost (start us)) :
    erase content ≠ .ok ⟨content, []⟩ := by
  intro herase
  obtain ⟨us', e, hlex', hwalk, hresult⟩ := walk_of_erase herase
  obtain rfl := Except.ok.inj (hlex.symm.trans hlex')
  obtain ⟨hcode, hspecifiers⟩ := Erased.mk.inj hresult
  rcases hlost e hwalk with hless | hnoted
  · obtain ⟨hreach, hrest, -⟩ := reaches_of_walk hwalk
    have htext := (whole_of_reaches hlex hreach).text
    rw [buffer, hrest, List.append_nil] at htext
    have houtput := toList_output e
    rw [← hcode] at houtput
    rw [textBehind, textBehind, ← houtput, htext] at hless
    exact Nat.lt_irrefl _ hless
  · exact hnoted (List.reverse_eq_nil_iff.mp hspecifiers.symm)

/-- A walk that gets to the end and has kept all tokens gives the source back. -/
theorem erase_eq_of_at (htext : sourceText ts = content.toList) (hlex : tokenize content.toList 0 .first = .ok us)
    (hreach : Reaches (start us) e) {s : Scope} (hat : Place.At ⟨ts.reverse, [], s⟩ e) (hbracket : s.frame.bracket = none) :
    erase content = .ok ⟨content, []⟩ := by
  have hrest : e.rest = [] := by
    have hlexed := hat.reads.lexed
    rw [sourceText_nil, lexFrom] at hlexed
    exact (Except.ok.inj hlexed).symm
  have hframe : e.frame = s.frame := congrArg Scope.frame hat.scope
  have hcode : e.output = content := by
    apply String.toList_injective
    rw [toList_output, hat.kept, List.reverse_reverse, htext]
  rw [erase, hlex]
  simp only
  rw [hreach.walk_eq, walk_of_nil hrest, finish, hframe, hbracket]
  show Except.ok (Erased.mk e.output e.specifiers.reverse) = _
  rw [hcode, hat.specifiers]
  rfl

/-- A source comes out as it is, and no module is noted, exactly where it can be lexed and what decides its parts holds. -/
theorem erase_eq_iff_of_through {P : List Token → Token → List Token → Prop} (hP : SparesTrivia P) {C : Prop} {ms : List Lexeme} {s : Scope}
    (hspells : Spells content.toList ts ms) (hbracket : s.frame.bracket = none)
    (h : ∀ p : Place, p.scope = ⟨.top, [], false⟩ → lexemes p.before = [] → lexemes p.after = ms → Through P C p ms [] s) :
    erase content = .ok ⟨content, []⟩ ↔ Lexable content.toList ∧ C ∧ Everywhere P [] ts [] := by
  obtain ⟨htext, htiled, hblank, hlexemes⟩ := hspells
  obtain ⟨part, after, rfl, -, hafter, hdecides⟩ := h ⟨[], ts, ⟨.top, [], false⟩⟩ rfl rfl hlexemes
  -- the part ends at the last lexeme, and blank space may follow
  have htrivia : ∀ t ∈ after, t.isTrivia = true := by
    intro t ht
    by_contra hother
    have hmem : t ∈ meaning after := List.mem_filter.mpr ⟨ht, by simpa using hother⟩
    rw [List.map_eq_nil_iff.mp hafter] at hmem
    cases hmem
  have hall : Everywhere P [] (part ++ after) [] ↔ Everywhere P [] part after := by
    rw [everywhere_append, List.append_nil]
    exact and_iff_left (everywhere_of_trivia hP htrivia)
  cases hlex : tokenize content.toList 0 .first with
  | error stray =>
    refine iff_of_false ?_ fun hholds => ?_
    · rw [erase, hlex]
      simp
    · obtain ⟨⟨us, hus⟩, -⟩ := hholds
      cases ((tokenize_first content.toList).symm.trans hlex).symm.trans hus
  | ok us =>
    have hlexed := lexFrom_of_tokenize hlex
    have hstart : Place.At ⟨[], part ++ after, ⟨.top, [], false⟩⟩ (start us) :=
      ⟨rfl, rfl, rfl, rfl, by simp, htiled, hblank, by rw [htext]; exact hlexed⟩
    rw [hall, and_iff_right ⟨us, hlexed⟩]
    constructor
    · intro herase
      by_contra hnot
      exact not_erase_eq_of_lost hlex (hdecides.strays hnot _ hstart) herase
    · intro hholds
      have hend := (hdecides.copies hholds).trans (copies_blanks (List.append_nil after).symm htrivia)
      obtain ⟨e, hreach, hat⟩ := hend _ hstart
      refine erase_eq_of_at htext hlex hreach (s := s) ?_ hbracket
      rw [List.reverse_append]
      simpa only [List.append_nil] using hat

end Whole

end ScriptLoader.Syntax
