import ScriptLoader.Proofs.Core.Grammar
import ScriptLoader.Proofs.Core.View

/-!
# Where phrases begin and end

What is kept of a phrase of the core language ends in a lexeme that its category fixes (`ends_of_core`), and a phrase begins in a way
that its category fixes (`begins_of_core`). The eraser reads both: what was kept last, and what comes next.
-/

namespace ScriptLoader.Syntax

open Eraser

/-! ## The last lexeme that is kept -/

@[simp] theorem said_bracketed (b : Bracket) (ss : List Sym) : said (bracketed b ss) = mark b.opener :: (said ss ++ [mark b.closer]) := by
  simp only [bracketed, codeMark, List.cons_append, said_code_cons, said_append, said_nil]

theorem getLast?_said_append (ss : List Sym) {us : List Sym} {m : Lexeme} (h : (said us).getLast? = some m) :
    (said (ss ++ us)).getLast? = some m := by
  rw [said_append, List.getLast?_append, h]
  rfl

theorem getLast?_said_cons (s : Sym) {us : List Sym} {m : Lexeme} (h : (said us).getLast? = some m) :
    (said (s :: us)).getLast? = some m := getLast?_said_append [s] h

theorem getLast?_said_code (m : Lexeme) : (said [code m]).getLast? = some m := rfl

theorem getLast?_said_bracketed (b : Bracket) (ss : List Sym) : (said (bracketed b ss)).getLast? = some (mark b.closer) := by
  rw [said_bracketed, ← List.cons_append, List.getLast?_concat]

/-- What is kept of the phrase ends in a way that its category fixes. -/
def Ends : Category → List Sym → Prop
  | .primary, ss | .expression _ _ _, ss => ∃ m, (said ss).getLast? = some m ∧ mayEnd m = true
  | .signature, ss => (said ss).getLast? = some (mark ")")
  | .block, ss | .branch _, ss | .choice, ss => (said ss).getLast? = some (mark "\x7d")
  | .declaration, ss | .member, ss => ∃ s ∈ [";", "\x7d"], (said ss).getLast? = some (mark s)
  | .statement, ss => said ss = [] ∨ ∃ s ∈ [";", "\x7d"], (said ss).getLast? = some (mark s)
  | .arrow _, _ | .element _, _ | .list _, _ | .statements, _ | .members, _ => True

/-- An ordinary name may end an expression. -/
theorem mayEnd_of_not_mem {x : String} (h : x ∉ expressionWords) : mayEnd (word x) = true := by
  show (!expressionWords.contains x) = true
  rw [List.contains_eq_mem, decide_eq_false h]
  rfl

theorem mayEnd_of_ordinary {x : String} (h : Ordinary x) : mayEnd (word x) = true := by
  have hsubset : ∀ w ∈ expressionWords, w ∈ reservedWords := by decide
  exact mayEnd_of_not_mem fun hmem => h (hsubset x hmem)

theorem mayEnd_of_literal {m : Lexeme} (h : isLiteralKind m.1 = true) : mayEnd m = true := by
  obtain ⟨kind, text⟩ := m
  cases kind with
  | string | template | number => rfl
  | _ => nomatch h

theorem said_of_arguments {ss : List Sym} (h : Arguments ss) : said ss = [] := by
  cases h with
  | none => rfl
  | some h => exact said_map_typed _

theorem said_of_typeDeclaration {ss : List Sym} (h : TypeDeclaration ss) : said ss = [] := by
  cases h with
  | interface hname hheader hbody => simp only [typedWord, said_typed_cons, said_map_typed]
  | typeAlias hname harguments hms =>
    simp only [typedWord, typedMark, said_typed_cons, said_append, said_of_arguments harguments, said_map_typed, said_nil,
      List.append_nil]

/-- Every phrase ends as its category says. -/
theorem ends_of_core {c : Category} {ss : List Sym} (h : Core c ss) : Ends c ss := by
  induction h with
  | name hx => exact ⟨_, getLast?_said_code _, mayEnd_of_ordinary hx⟩
  | constant hx =>
    have hall : ∀ x ∈ constants, mayEnd (word x) = true := by decide
    exact ⟨_, getLast?_said_code _, hall _ hx⟩
  | literal hm => exact ⟨_, getLast?_said_code _, mayEnd_of_literal hm⟩
  | this hx => exact ⟨_, rfl, mayEnd_of_not_mem hx⟩
  | parentheses => exact ⟨_, getLast?_said_bracketed .round _, rfl⟩
  | array => exact ⟨_, getLast?_said_bracketed .square _, rfl⟩
  | object => exact ⟨_, getLast?_said_bracketed .curly _, rfl⟩
  | dot _ _ hx => exact ⟨_, getLast?_said_append _ (getLast?_said_cons _ (getLast?_said_code _)), mayEnd_of_not_mem hx⟩
  | index => exact ⟨_, getLast?_said_append _ (getLast?_said_bracketed .square _), rfl⟩
  | call => exact ⟨_, getLast?_said_append _ (getLast?_said_append _ (getLast?_said_bracketed .round _)), rfl⟩
  | callMember =>
    exact ⟨_, getLast?_said_append _ (getLast?_said_cons _ (getLast?_said_cons _
      (getLast?_said_append _ (getLast?_said_bracketed .round _)))), rfl⟩
  | asserted _ ih =>
    rw [Ends, said_append, said_assertion_cons, said_nil, List.append_nil]
    exact ih
  | value _ ih => exact ih
  | before _ _ ih =>
    obtain ⟨m, hm, hend⟩ := ih
    exact ⟨m, getLast?_said_cons _ hm, hend⟩
  | binary _ _ _ _ _ ih =>
    obtain ⟨m, hm, hend⟩ := ih
    exact ⟨m, getLast?_said_append _ (getLast?_said_cons _ hm), hend⟩
  | conditional _ _ _ _ _ _ ih =>
    obtain ⟨m, hm, hend⟩ := ih
    exact ⟨m, getLast?_said_append _ (getLast?_said_cons _ (getLast?_said_append _ (getLast?_said_cons _ hm))), hend⟩
  | cast _ _ _ _ ih =>
    rw [Ends, said_append, said_typed_cons, said_map_typed, List.append_nil]
    exact ih
  | arrowValue _ _ _ ih =>
    obtain ⟨m, hm, hend⟩ := ih
    exact ⟨m, getLast?_said_append _ (getLast?_said_cons _ hm), hend⟩
  | arrowBlock _ _ _ ih => exact ⟨_, getLast?_said_append _ (getLast?_said_cons _ ih), rfl⟩
  | signature => exact getLast?_said_append _ (getLast?_said_bracketed .round _)
  | declaration => exact ⟨";", by decide, getLast?_said_cons _ (getLast?_said_append _ (getLast?_said_code _))⟩
  | function _ _ _ _ _ ih =>
    exact ⟨"\x7d", by decide, getLast?_said_cons _ (getLast?_said_cons _ (getLast?_said_append _ (getLast?_said_append _ ih)))⟩
  | «class» =>
    exact ⟨"\x7d", by decide, getLast?_said_cons _ (getLast?_said_cons _ (getLast?_said_append _ (getLast?_said_append _
      (getLast?_said_append _ (getLast?_said_bracketed .curly _)))))⟩
  | field => exact ⟨";", by decide, getLast?_said_append _ (getLast?_said_code _)⟩
  | initialised =>
    exact ⟨";", by decide, getLast?_said_append _ (getLast?_said_cons _ (getLast?_said_append _ (getLast?_said_code _)))⟩
  | method _ _ _ _ _ _ ih =>
    exact ⟨"\x7d", by decide, getLast?_said_append _ (getLast?_said_cons _ (getLast?_said_append _ (getLast?_said_append _ ih)))⟩
  | block => exact getLast?_said_bracketed .curly _
  | declared _ ih => exact Or.inr ih
  | exported _ ih =>
    obtain ⟨s, hs, hlast⟩ := ih
    exact Or.inr ⟨s, hs, getLast?_said_cons _ hlast⟩
  | typeDeclared h => exact Or.inl (said_of_typeDeclaration h)
  | typeExported h => exact Or.inl ((said_typed_cons _ _).trans (said_of_typeDeclaration h))
  | branch _ _ _ _ ih => exact getLast?_said_cons _ (getLast?_said_append _ ih)
  | alone _ ih => exact ih
  | otherwise _ _ _ ih => exact getLast?_said_append _ (getLast?_said_cons _ ih)
  | otherwiseIf _ _ _ ih => exact getLast?_said_append _ (getLast?_said_cons _ ih)
  | choice _ ih => exact Or.inr ⟨"\x7d", by decide, ih⟩
  | leave => exact Or.inr ⟨";", by decide, rfl⟩
  | answer => exact Or.inr ⟨";", by decide, getLast?_said_cons _ (getLast?_said_append _ (getLast?_said_code _))⟩
  | evaluate => exact Or.inr ⟨";", by decide, getLast?_said_append _ (getLast?_said_code _)⟩
  | update => exact Or.inr ⟨";", by decide, getLast?_said_append _ (getLast?_said_cons _ (getLast?_said_code _))⟩
  | _ => trivial

/-- What was kept last, behind a phrase of which something is kept. -/
theorem head?_said_after {ss : List Sym} {m : Lexeme} (h : (said ss).getLast? = some m) (v : View) (rest : List Token) :
    (v.after ss rest).said.head? = some m := by
  rw [View.after, List.head?_append, List.head?_reverse, h]
  rfl

/-- Behind an expression an expression has ended. -/
theorem ended_after {ss : List Sym} (h : ∃ m, (said ss).getLast? = some m ∧ mayEnd m = true) (v : View) (rest : List Token) :
    ended (v.after ss rest).said = true := by
  obtain ⟨m, hm, hend⟩ := h
  rw [ended, head?_said_after hm]
  exact hend

/-! ## The first symbol -/

/-- Marks that an expression may begin with. -/
def beginners : List String := ["(", "[", "\x7b", "!", "-", "+", "~", "++", "--", "<"]

/-- The phrase begins in a way that its category fixes. -/
def Begins : Category → List Sym → Prop
  | .primary, ss => ∃ s us, ss = s :: us ∧ s.glued = false ∧ (s.lexeme.1 ≠ .punctuation ∨ s.lexeme.2 ∈ ["(", "[", "\x7b"])
  | .expression _ _ _, ss | .arrow _, ss =>
    ∃ s us, ss = s :: us ∧ s.glued = false ∧ (s.lexeme.1 ≠ .punctuation ∨ s.lexeme.2 ∈ beginners)
  | .signature, ss => ∃ s us, ss = s :: us ∧ s.glued = false ∧ s.lexeme.2 ∈ ["(", "<"]
  | .block, ss => ∃ us, ss = codeMark "\x7b" :: us
  | .declaration, ss => ∃ w x us, ss = codeWord w :: codeWord x :: us
  | .element .declarator, ss | .list .declarator, ss => ∃ x us, ss = codeWord x :: us ∧ Ordinary x
  | _, _ => True

theorem begins_of_arguments {arguments us : List Sym} (h : Arguments arguments) :
    ∃ s vs, arguments ++ bracketed .round us = s :: vs ∧ s.glued = false ∧ s.lexeme.2 ∈ ["(", "<"] := by
  cases h with
  | none => exact ⟨codeMark "(", _, rfl, rfl, by decide⟩
  | some h =>
    obtain ⟨_, hmerges⟩ := h
    cases hmerges
    exact ⟨typedMark "<", _, rfl, rfl, by decide⟩

/-- A phrase that begins another one begins it. -/
theorem exists_cons_append {P : Sym → Prop} {ss : List Sym} (h : ∃ s us, ss = s :: us ∧ P s) (vs : List Sym) :
    ∃ s us, ss ++ vs = s :: us ∧ P s := by
  obtain ⟨s, us, rfl, hs⟩ := h
  exact ⟨s, us ++ vs, rfl, hs⟩

/-- Every phrase begins as its category says. -/
theorem begins_of_core {c : Category} {ss : List Sym} (h : Core c ss) : Begins c ss := by
  have hoperator : ∀ op ∈ prefixOperators, op.1 ≠ .punctuation ∨ op.2 ∈ beginners := by decide
  have hround : ∀ s ∈ ["(", "<"], s ∈ beginners := by decide
  induction h with
  | name | constant | this => exact ⟨_, _, rfl, rfl, Or.inl nofun⟩
  | @literal m hm =>
    refine ⟨_, _, rfl, rfl, Or.inl fun hkind => ?_⟩
    rw [show m.1 = .punctuation from hkind] at hm
    nomatch hm
  | parentheses | array | object => exact ⟨_, _, rfl, rfl, Or.inr (by decide)⟩
  | dot _ _ _ ih | index _ _ ih | call _ _ _ ih | callMember _ _ _ _ ih | asserted _ ih => exact exists_cons_append ih _
  | value _ ih =>
    obtain ⟨s, us, rfl, hglued, hs⟩ := ih
    refine ⟨s, us, rfl, hglued, hs.imp id fun hmem => ?_⟩
    exact List.mem_append_left ["!", "-", "+", "~", "++", "--", "<"] hmem
  | before hop => exact ⟨_, _, rfl, rfl, hoperator _ hop⟩
  | binary _ _ _ _ ih | conditional _ _ _ _ ih | cast _ _ _ _ ih => exact exists_cons_append ih _
  | arrowValue _ _ ih | arrowBlock _ _ ih => exact exists_cons_append ih _
  | arrowName => exact ⟨_, _, rfl, rfl, Or.inl nofun⟩
  | arrowParameters _ ih =>
    obtain ⟨s, us, rfl, hglued, hs⟩ := ih
    exact ⟨s, us, rfl, hglued, Or.inr (hround _ hs)⟩
  | arrowTyped _ _ ih =>
    obtain ⟨s, us, rfl, hglued, hs⟩ := ih
    exact ⟨s, us ++ _, rfl, hglued, Or.inr (hround _ hs)⟩
  | signature harguments => exact begins_of_arguments harguments
  | @spread k _ _ hk =>
    cases k with
    | declarator => nomatch hk
    | _ => trivial
  | bound h | defaulted h =>
    cases h with
    | parameter => trivial
    | declarator hx => exact ⟨_, _, rfl, hx⟩
  | @empty k hk =>
    cases k with
    | declarator => exact absurd rfl hk
    | _ => trivial
  | @one k _ _ ih =>
    cases k with
    | declarator => exact ih
    | _ => trivial
  | @more k _ _ _ _ ih =>
    cases k with
    | declarator =>
      obtain ⟨x, us, rfl, hx⟩ := ih
      exact ⟨x, _, rfl, hx⟩
    | _ => trivial
  | declaration _ _ ih =>
    obtain ⟨x, us, rfl, _⟩ := ih
    exact ⟨_, x, _, rfl⟩
  | function => exact ⟨_, _, _, rfl⟩
  | «class» => exact ⟨_, _, _, rfl⟩
  | block => exact ⟨_, rfl⟩
  | _ => trivial

end ScriptLoader.Syntax
