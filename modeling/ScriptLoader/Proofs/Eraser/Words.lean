import ScriptLoader.Syntax.Eraser

/-!
# Words that the eraser passes over

Few words mean something to the eraser (`typeWords`). Any other word is kept, and says at most that a declaration of variables has
begun.
-/

namespace ScriptLoader.Syntax

/-- Words that begin or mark something that is erased, skipped or refused. -/
def typeWords : List String :=
  ["interface", "type", "declare", "enum", "namespace", "module", "import", "export", "class", "case", "public", "private",
   "protected", "readonly", "override", "as", "satisfies", "implements"]

/-- Words that begin a statement which is skipped, copied or refused as a whole. -/
def statementWords : List String := ["interface", "type", "declare", "enum", "namespace", "module", "import", "export"]

theorem mem_typeWords_of_mem_statementWords {s : String} (h : s ∈ statementWords) : s ∈ typeWords :=
  List.mem_append_left
    ["class", "case", "public", "private", "protected", "readonly", "override", "as", "satisfies", "implements"] h

/-- A token at which an expression may end. -/
def endsExpression (t : Token) : Bool :=
  if t.kind = .identifier then !Eraser.expressionWords.contains t.text
  else t.isLiteral || [")", "]", "\x7d"].contains t.text

namespace Eraser

section Words

variable {e : Eraser} {t : Token} (ts : List Token)

/-- A word that begins no declaration for the type checker begins no such statement. -/
theorem onStatement_eq_none (h : t.text ∉ statementWords) (henum : t.text = "const" → headIn (significant ts) ["enum"] = false) :
    onStatement e t ts = .ok none := by
  simp only [statementWords, List.mem_cons, not_or] at h
  obtain ⟨h₁, h₂, h₃, h₄, h₅, h₆, h₇, h₈, -⟩ := h
  have hconst : (t.text = "const" && headIn (significant ts) ["enum"]) = false := by
    by_cases hc : t.text = "const"
    · rw [henum hc, Bool.and_false]
    · rw [decide_eq_false hc, Bool.false_and]
  unfold onStatement
  simp only [hconst, h₁, h₂, h₃, h₄, h₅, h₆, h₇, h₈, decide_false, Bool.false_and, Bool.or_false, Bool.false_eq_true, if_false]

/-- A word that marks nothing for the type checker is kept. -/
theorem onWord_eq_keep (h : t.text ∉ typeWords) : onWord e t ts = .ok (keep (e.noteWord t.text (significant ts)) t ts) := by
  simp only [typeWords, List.mem_cons, not_or] at h
  obtain ⟨-, -, -, -, -, -, -, -, -, -, h₁, h₂, h₃, h₄, h₅, h₆, h₇, h₈, -⟩ := h
  have hmodifier : memberModifiers.contains t.text = false := by
    rw [Bool.eq_false_iff, Ne, List.contains_iff_mem]
    simp only [memberModifiers, List.mem_cons, h₁, h₂, h₃, h₄, h₅, List.not_mem_nil, or_self, not_false_eq_true]
  unfold onWord
  simp only [hmodifier, h₆, h₇, h₈, decide_false, Bool.false_and, Bool.or_false, Bool.false_eq_true, if_false]

/-- A word that begins no class and no case label at most begins a declaration of variables. -/
theorem noteWord_eq (h : t.text ∉ typeWords) (next : List Token) :
    e.noteWord t.text next =
      { e with frame := { e.frame with declaring := e.frame.declaring || declarationWords.contains t.text } } := by
  simp only [typeWords, List.mem_cons, not_or] at h
  obtain ⟨-, -, -, -, -, -, -, -, h₁, h₂, -⟩ := h
  unfold noteWord
  cases hd : declarationWords.contains t.text with
  | true => rw [if_pos rfl, Bool.or_true]
  | false => simp only [h₁, h₂, decide_false, Bool.false_and, Bool.false_eq_true, if_false, Bool.or_false]

end Words

theorem expressionEnded_eq (e : Eraser) : e.expressionEnded = e.keptMeaning.head?.any endsExpression := by
  unfold expressionEnded
  cases e.keptMeaning <;> rfl

end Eraser

end ScriptLoader.Syntax
