import ScriptLoader.Proofs.Core.TypeExtent
import ScriptLoader.Proofs.Eraser.Brackets

/-!
# The brackets of a type

Behind a type the same brackets are open as before it (`neutral_of_text`), whatever closing angle brackets were put together in it. So the
brackets of any tokens that say types are nested (`behind_of_neutral`).
-/

namespace ScriptLoader.Syntax

/-- The brackets that are open behind a lexeme. Only marks are brackets. -/
def Bracket.afterLexeme (opened : List Bracket) (m : Lexeme) : Option (List Bracket) :=
  if m.1 = .punctuation then after opened ⟨m.1, m.2, 0, .first⟩ else some opened

/-- Behind the lexemes the same brackets are open as before them, whatever those are. -/
def Neutral (ms : List Lexeme) : Prop := ∀ opened, ms.foldlM Bracket.afterLexeme opened = some opened

theorem Bracket.after_eq_lexeme {t : Token} (hshape : t.Shaped) (opened : List Bracket) : after opened t = afterLexeme opened t.lexeme := by
  rw [afterLexeme]
  split
  · rfl
  · rename_i hkind
    exact after_of_isNone (isNone_of_beginsOther (beginsOther_of_shape hshape hkind)) opened

/-- Which brackets are open behind some tokens can be told from what they say. -/
theorem behind_eq_lexemes {ts : List Token} (hshape : ∀ t ∈ ts, t.Shaped) (opened : List Bracket) :
    Bracket.behind opened ts = (lexemes ts).foldlM Bracket.afterLexeme opened := by
  induction ts generalizing opened with
  | nil => rfl
  | cons t ts ih =>
    obtain ⟨ht, hts⟩ := List.forall_mem_cons.mp hshape
    cases htrivia : t.isTrivia with
    | true =>
      have hnone := Bracket.isNone_of_beginsOther (ht.beginsOther_of_trivia htrivia)
      rw [Bracket.behind_cons_of_isNone hnone, lexemes_cons_of_trivia htrivia, ih hts]
    | false =>
      rw [Bracket.behind_cons, lexemes_cons_of_not htrivia, List.foldlM_cons, Bracket.after_eq_lexeme ht]
      exact congrArg _ (funext fun opened => ih hts opened)

theorem behind_of_neutral {ts : List Token} (hshape : ∀ t ∈ ts, t.Shaped) (h : Neutral (lexemes ts)) (opened : List Bracket) :
    Bracket.behind opened ts = some opened := (behind_eq_lexemes hshape opened).trans (h opened)

namespace Neutral

variable {m : Lexeme} {ms ms' : List Lexeme}

theorem nil : Neutral [] := fun _ => rfl

theorem append (h : Neutral ms) (h' : Neutral ms') : Neutral (ms ++ ms') := by
  intro opened
  rw [List.foldlM_append, h opened]
  exact h' opened

theorem one (hm : m.1 = .punctuation → Bracket.opened? m.2 = none ∧ Bracket.closed? m.2 = none) : Neutral [m] := by
  intro opened
  rw [List.foldlM_cons, Bracket.afterLexeme]
  split
  · rename_i hkind
    have hnone : Bracket.IsNone ⟨m.1, m.2, 0, .first⟩ := hm hkind
    rw [Bracket.after_of_isNone hnone]
    rfl
  · rfl

theorem cons (hm : m.1 = .punctuation → Bracket.opened? m.2 = none ∧ Bracket.closed? m.2 = none) (h : Neutral ms) : Neutral (m :: ms) :=
  (one hm).append h

/-- A mark that is no bracket. -/
theorem other {s : String} (hs : Bracket.opened? s = none ∧ Bracket.closed? s = none) (h : Neutral ms) : Neutral (mark s :: ms) :=
  cons (fun _ => hs) h

theorem word {x : String} (h : Neutral ms) : Neutral (word x :: ms) := cons nofun h

theorem group (b : Bracket) (hinner : Neutral ms) : Neutral (mark b.opener :: ms ++ [mark b.closer]) := by
  intro opened
  have hopen : Bracket.afterLexeme opened (mark b.opener) = some (b :: opened) := Bracket.after_of_opener rfl opened
  have hclose : Bracket.afterLexeme (b :: opened) (mark b.closer) = some opened := Bracket.after_of_closer rfl
  rw [List.foldlM_append, List.foldlM_cons, hopen]
  show (ms.foldlM Bracket.afterLexeme (b :: opened) >>= _) = some opened
  rw [hinner]
  show (Bracket.afterLexeme (b :: opened) (mark b.closer) >>= _) = some opened
  rw [hclose]
  rfl

end Neutral

theorem neutral_of_nested {ms : List Lexeme} (h : Nested ms) : Neutral ms := by
  induction h with
  | nil => exact .nil
  | leaf hopen hclose h ih => exact .cons (fun _ => ⟨hopen, hclose⟩) ih
  | group b hinner h ihinner ih =>
    rw [List.append_cons]
    exact (Neutral.group b ihinner).append ih

theorem neutral_of_group {b : Bracket} {ms : List Lexeme} (h : Group b ms) : Neutral ms := by
  obtain ⟨hinner⟩ := h
  exact .group b (neutral_of_nested hinner)

/-! ## Angle brackets -/

/-- The lexeme that a piece is on its own. -/
def Piece.alone : Piece → Lexeme
  | .lexeme m => m
  | .closing => mark ">"

/-- Which brackets are open does not depend on how closing angle brackets are put together. -/
theorem foldlM_of_merges {ps : List Piece} {ms : List Lexeme} (h : Merges ps ms) (opened : List Bracket) :
    ms.foldlM Bracket.afterLexeme opened = (ps.map Piece.alone).foldlM Bracket.afterLexeme opened := by
  induction h generalizing opened with
  | nil => rfl
  | @lexeme m ps ms h ih =>
    rw [List.map_cons, List.foldlM_cons, List.foldlM_cons]
    exact congrArg _ (funext ih)
  | one h ih => exact ih opened
  | two h ih => exact ih opened
  | three h ih => exact ih opened

theorem neutral_of_between {inside : Bool} {ps : List Piece} (h : Between inside ps) : Neutral (ps.map Piece.alone) := by
  induction h with
  | nil => exact .nil
  | leaf _ _ hopen hclose _ h ih => exact .cons (fun _ => ⟨hopen, hclose⟩) ih
  | group b hinner h ihinner ih =>
    rw [List.append_cons, List.map_append, List.map_append, List.map_cons]
    exact (Neutral.group b ihinner).append ih
  | angles hinner h ihinner ih =>
    rw [List.map_append, List.map_cons, List.map_cons]
    exact .append (.other (by decide) ihinner) (.other (by decide) ih)

theorem neutral_of_arguments {ms : List Lexeme} (h : TypeArguments ms) : Neutral ms := by
  obtain ⟨hbetween, hmerges⟩ := h
  have hangles : Neutral ((inAngles _).map Piece.alone) := neutral_of_between (.angles hbetween (.nil false))
  exact fun opened => (foldlM_of_merges hmerges opened).trans (hangles opened)

/-! ## Types -/

theorem neutral_of_dotted {ms : List Lexeme} (h : Dotted ms) : Neutral ms := by
  induction h with
  | nil => exact .nil
  | cons h ih => exact .other (by decide) (.word ih)

theorem neutral_of_named {ms : List Lexeme} (h : Named ms) : Neutral ms := by
  cases h with
  | plain hname hdots => exact .word (neutral_of_dotted hdots)
  | applied hname hdots harguments => exact .append (.word (neutral_of_dotted hdots)) (neutral_of_arguments harguments)

theorem neutral_of_suffixes {ms : List Lexeme} (h : Suffixes ms) : Neutral ms := by
  induction h with
  | nil => exact .nil
  | cons h hrest ih => exact (neutral_of_group h).append ih

theorem neutral_of_base {bare : Bool} {ms : List Lexeme} (h : Base bare ms) : Neutral ms := by
  cases h with
  | named h => exact neutral_of_named h
  | literal h =>
    refine .one fun hkind => ?_
    rw [hkind] at h
    nomatch h
  | round h => exact neutral_of_group h
  | square h => exact neutral_of_group h
  | curly h => exact neutral_of_group h

/-- The brackets of a type are closed in it. -/
theorem neutral_of_text {part : TypePart} {bare greedy : Bool} {ms : List Lexeme} (h : TypeText part bare greedy ms) : Neutral ms := by
  have hjoin {op : String} (hop : op ∈ ["|", "&"]) : Bracket.opened? op = none ∧ Bracket.closed? op = none := by
    rcases List.mem_cons.mp hop with rfl | hop
    · decide
    · rw [List.mem_singleton.mp hop]
      decide
  induction h with
  | based h hsuffixes => exact (neutral_of_base h).append (neutral_of_suffixes hsuffixes)
  | negative h => exact .other (by decide) (.one fun hkind => nomatch h.symm.trans hkind)
  | function h _ ih => exact (neutral_of_group h).append (.other (by decide) ih)
  | predicate h _ ih => exact (neutral_of_named h).append (.word ih)
  | simple _ ih => exact ih
  | prefixed _ _ _ ih => exact .word ih
  | generic hparameters _ ih => exact (neutral_of_arguments hparameters).append ih
  | operand _ ih => exact ih
  | join hop _ _ ih ihothers => exact ih.append (.cons (fun _ => hjoin hop) ihothers)
  | conditional _ _ _ _ ihchecked ihbound ihyes ihno =>
    exact ihchecked.append (.word (ihbound.append (.other (by decide) (ihyes.append (.other (by decide) ihno)))))
  | whole _ ih => exact ih
  | leading hop _ ih => exact .cons (fun _ => hjoin hop) ih

end ScriptLoader.Syntax
