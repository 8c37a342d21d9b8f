import ScriptLoader.Proofs.Core.Conditional
import ScriptLoader.Proofs.Core.Erasure

/-!
# Casts

`as` and `satisfies` are erased with the type behind them where the code kept last may end an expression and the type begins with a word,
a string or an opening bracket other than an angle bracket (`cast_erased_iff`). So a cast stays in the code if its operand is a member
that is named like an operator, or if its type begins with a number, a template, a minus sign, a mark that joins operands, or type
parameters.
-/

namespace ScriptLoader.Syntax

open Eraser

/-! ## Operands -/

/-- A primary expression or a name, with members, indices and arguments behind it. Members may have any name. -/
inductive Reference : List Sym → Prop where
  | primary {ss : List Sym} (h : Core .primary ss) : Reference ss
  | name {x : String} (hx : isInert (word x) = true) : Reference [codeWord x]
  | this {x : String} : Reference [codeWord "this", codeMark ".", codeWord x]
  | dot {ss : List Sym} {dot x : String} (h : Reference ss) (hdot : dot ∈ [".", "?."]) : Reference (ss ++ [codeMark dot, codeWord x])
  | index {t : Bool} {ss us : List Sym} (h : Reference ss) (hindex : Core (.expression false false t) us) :
      Reference (ss ++ bracketed .square us)
  | call {ss arguments us : List Sym} (h : Reference ss) (harguments : Arguments arguments) (hus : Core (.list .item) us) :
      Reference (ss ++ (arguments ++ bracketed .round us))

/-- What a cast may stand behind: an expression, perhaps with such a reference at its end, `this`, or a function. -/
inductive Operand : List Sym → Prop where
  | expression {t : Bool} {ss : List Sym} (h : Core (.expression false false t) ss) : Operand ss
  | reference {ss : List Sym} (h : Reference ss) : Operand ss
  | this : Operand [codeWord "this"]
  | function {name ss result us : List Sym} (hname : name = [] ∨ ∃ x, Ordinary x ∧ name = [codeWord x]) (h : Core .signature ss)
      (hresult : Annotated false result) (hbody : Core .block us) : Operand (codeWord "function" :: (name ++ (ss ++ (result ++ us))))
  | before {op : Lexeme} {ss : List Sym} (hop : op ∈ prefixOperators) (h : Operand ss) : Operand (code op :: ss)
  | binary {t : Bool} {op : Lexeme} {ss us : List Sym} (hop : op ∈ binaryOperators) (htyped : t = true → op ∉ [mark "|", mark "&"])
      (h : Core (.expression false false t) ss) (hus : Operand us) : Operand (ss ++ code op :: us)

theorem passes_of_reference {ss : List Sym} (h : Reference ss) : Passes .primary ss := by
  induction h with
  | primary h => exact passes_of_core h
  | name hx => exact passes_plain ⟨hx, word_not_slash _⟩
  | this => exact passes_this
  | dot _ hdot ih => exact passes_dot ih hdot
  | index _ hindex ih => exact passes_index ih (passes_of_core hindex)
  | call _ harguments hus ih => exact passes_call ih harguments (passes_of_core hus)

/-- The walk gets behind an operand, where a cast follows. -/
theorem goes_operand {ss : List Sym} (h : Operand ss) {v : View} {rest : List Token} (hw : Written ss v.rest rest)
    (hopen : Open false false v) (hfits : FitsBehind v.said ss) {as : String} (has : as ∈ ["as", "satisfies"])
    (hnext : (lexemes rest).head? = some (word as)) : Goes v (v.after ss rest) := by
  induction h generalizing v with
  | expression h =>
    refine passes_of_core h v rest hw hopen hfits fun _ m hm => ?_
    rw [hnext] at hm
    rw [← Option.some.inj hm]
    exact (by decide : ∀ as ∈ ["as", "satisfies"], goesOn .whole true true (word as) = false) as has
  | reference h => exact (passes_of_reference h v rest hw hopen.ahead).trans (.loose _)
  | this =>
    obtain ⟨us, hw, hgo⟩ := goes_this hw fun us hus => by
      obtain rfl := Written.nil_iff.mp hus
      rw [headIn_significant, hnext]
      exact (by decide : ∀ as ∈ ["as", "satisfies"], [":"].contains (word as).2 = false) as has
    obtain rfl := Written.nil_iff.mp hw
    exact hgo.loosen
  | @function name ss result us hname h hresult hbody =>
    obtain ⟨mid, hw, hgo⟩ := goes_plain hw (by decide)
    obtain ⟨mid', hfirst, hw⟩ := hw.split
    have hnamed : Goes (v.after [codeWord "function"] mid) ((v.after [codeWord "function"] mid).after name mid') := by
      rcases hname with rfl | ⟨x, hx, rfl⟩
      · exact goes_nil hfirst
      · obtain ⟨us', hnil, hgo⟩ := goes_ordinary (v := v.after [codeWord "function"] mid) hx hfirst
        obtain rfl := Written.nil_iff.mp hnil
        exact hgo.loosen
    exact hgo.loosen.append (hnamed.append (goes_function (ends_of_core h) (passes_of_core h) hresult (begins_of_core hbody)
      (passes_of_core hbody) hw hopen.ahead hopen.labels (hopen.conditions rfl)))
  | before hop _ ih =>
    obtain ⟨us, hw, hfits, hgo⟩ := goes_prefixOperator hop hw hfits
    exact hgo.append (ih hw (hopen.after _ _) hfits)
  | @binary t op ss us hop htyped h _ ih =>
    obtain ⟨mid, hfirst, hw⟩ := hw.split
    have hleft : Goes v (v.after ss mid) :=
      passes_of_core h v mid hfirst hopen hfits.of_append fun ht => endsBefore_of_operator hop (htyped ht) hw
    obtain ⟨mid', hw, hfits, hgo⟩ := goes_binaryOperator (v := v.after ss mid) hop hw (ended_after (ends_of_core h) v mid)
    exact hleft.append (hgo.append (ih hw ((hopen.after _ _).after _ _) hfits))

/-! ## Erasing a cast -/

section Casts

variable {cut : Bool} {ps : List Piece} {ms : List Lexeme}

/-- Where it names no member, `as` or `satisfies` is erased with its type if and only if an expression has ended before it, the type
begins as the eraser expects, and the type is not cut. -/
theorem exists_step_iff_of_cast (h : TypeForm NestedPieces .whole cut ps) (hm : Merges ps ms) {e : Eraser} {t : Token}
    {us rest : List Token} {as : String} (has : as ∈ ["as", "satisfies"]) (ht : t.lexeme = word as) (hpoint : e.previousText ≠ some ".")
    (hpoint' : e.previousText ≠ some "?.") (hw : Written (ms.map typed) us rest) (hend : EndsBefore .whole true true rest) :
    (∃ e', step e t us = .ok e' ∧ e'.1.rest = rest ∧ lexemes e'.1.kept = lexemes e.kept) ↔
      e.expressionEnded = true ∧ beginsCast ms = true ∧ cut = false := by
  obtain ⟨m, ms, rfl⟩ : ∃ m ms', ms = m :: ms' := by
    obtain ⟨m, ps', rfl, _⟩ := form_head h
    cases hm
    exact ⟨_, _, rfl⟩
  rw [step_of_cast ht has hpoint hpoint', beginsCast_of_written hw]
  cases hcast : e.expressionEnded && beginsCast (m :: ms) with
  | false =>
    refine iff_of_false ?_ fun hall => ?_
    · rintro ⟨e', hok, _, hkept⟩
      cases hok
      have hkept : lexemes (t :: e.kept) = lexemes e.kept := hkept
      rw [lexemes_cons_of_not (isTrivia_of_word ht)] at hkept
      exact List.cons_ne_self _ _ hkept
    · rw [hall.1, hall.2.1] at hcast
      cases hcast
  | true =>
    obtain ⟨hended, hbegins⟩ := Bool.and_eq_true_iff.mp hcast
    rw [if_pos rfl]
    cases cut with
    | false =>
      obtain ⟨r, hr, hleft⟩ := skipType_of_conditional (.type h) hm hw hend
      refine iff_of_true ⟨skipTo e.dropBlanks r.toRest.afterHead, ?_, hleft, lexemes_dropBlanks e.kept⟩ ⟨hended, hbegins, rfl⟩
      rw [hr]
      rfl
    | true =>
      refine iff_of_false ?_ fun hall => Bool.noConfusion hall.2.2
      rintro ⟨e', hok, hleft, _⟩
      obtain ⟨r, hr, rfl⟩ := ok_of_map hok
      exact absurd (astray_of_conditional (.type h) hm hw hend ⟨r, hr, hleft⟩).1.1 (Nat.lt_irrefl _)

theorem ended_append {said said' : List Lexeme} (h : ended said = true) : ended (said ++ said') = true := by
  cases said with
  | nil => nomatch h
  | cons m said => exact h

theorem passes_castOperand {ss : List Sym} {as : String} (hss : Operand ss) (hended : ended (said ss).reverse = true)
    (has : as ∈ ["as", "satisfies"]) (h : TypeForm NestedPieces .whole false ps) (hm : Merges ps ms) (hbegins : beginsCast ms = true) :
    Passes (.expression false false true) (ss ++ typedWord as :: ms.map typed) := by
  intro v rest hw hopen hfits hend
  obtain ⟨mid, hfirst, hw⟩ := hw.split
  have hnext : (lexemes mid).head? = some (word as) := by
    rw [hw.lexemes_eq]
    rfl
  have hleft : Goes v (v.after ss mid) := goes_operand hss hfirst hopen hfits.of_append has hnext
  exact hleft.append (goes_cast_of_skip hw has (fun us hus => skipType_of_conditional (.type h) hm hus (hend rfl)) hbegins
    (ended_append hended))

/-- An assigned cast, as it is written. -/
def assignedCast (x as : String) (ss : List Sym) (ms : List Lexeme) : List Sym :=
  codeWord x :: codeMark "=" :: (bracketed .round (ss ++ typedWord as :: ms.map typed) ++ [codeMark ";"])

/-- A statement that assigns the value of a cast in round brackets is passed, and its code is what it is without the cast. -/
theorem passes_assignedCast {x : String} {ss : List Sym} {as : String} (hx : Ordinary x) (hss : Operand ss)
    (hended : ended (said ss).reverse = true) (has : as ∈ ["as", "satisfies"]) (h : TypeForm NestedPieces .whole false ps)
    (hm : Merges ps ms) (hbegins : beginsCast ms = true) :
    Passes .statement (assignedCast x as ss ms) := by
  have hname : Passes .primary [codeWord x] := passes_plain ⟨isInert_of_ordinary rfl hx, word_not_slash x⟩
  have hvalue : Passes .primary (bracketed .round (ss ++ typedWord as :: ms.map typed)) :=
    passes_parentheses (passes_castOperand hss hended has h hm hbegins)
  have hends : Ends (.expression false false false) [codeWord x] := ⟨word x, rfl, mayEnd_of_ordinary hx⟩
  have hequals : mark "=" ∈ binaryOperators := by decide
  have hassigned : Passes (.expression false false false)
      ([codeWord x] ++ code (mark "=") :: bracketed .round (ss ++ typedWord as :: ms.map typed)) :=
    passes_binary hequals (fun ht : false = true => nomatch ht) hends (passes_value hname) (passes_value hvalue)
  exact passes_evaluate hassigned rfl

/-- Where it names no member, `as` or `satisfies` is erased with its type if and only if an expression has ended before it, the type
begins with a word, a string or an opening bracket, and the type is not cut. Then of a statement that assigns the cast, the code that is
kept is the statement without the cast. -/
theorem cast_erased_iff (h : TypeForm NestedPieces .whole cut ps) (hm : Merges ps ms) :
    (∀ (e : Eraser) (t : Token) (us rest : List Token) (as : String), as ∈ ["as", "satisfies"] → t.lexeme = word as →
      e.previousText ≠ some "." → e.previousText ≠ some "?." → Written (ms.map typed) us rest → EndsBefore .whole true true rest →
      ((∃ e', step e t us = .ok e' ∧ e'.1.rest = rest ∧ lexemes e'.1.kept = lexemes e.kept) ↔
        e.expressionEnded = true ∧ beginsCast ms = true ∧ cut = false)) ∧
    ∀ (content : String) (ts rest : List Token) (x as : String) (ss : List Sym), tokenize content.toList 0 .first = .ok ts →
      Ordinary x → as ∈ ["as", "satisfies"] → Operand ss → Written (assignedCast x as ss ms) ts rest →
      (∀ t ∈ rest, t.isTrivia = true) → ended (said ss).reverse = true → beginsCast ms = true → cut = false →
      ∃ kept specifiers, erase content = .ok ⟨String.join (kept.map (·.text)), specifiers⟩ ∧ kept.Sublist ts ∧
        lexemes kept = said (codeWord x :: codeMark "=" :: (bracketed .round ss ++ [codeMark ";"])) := by
  constructor
  · exact fun e t us rest as has ht hpoint hpoint' hw hend => exists_step_iff_of_cast h hm has ht hpoint hpoint' hw hend
  · rintro content ts rest x as ss hlex hx has hss hw hrest hended hbegins rfl
    have hstatement : Passes .statement (assignedCast x as ss ms) := passes_assignedCast hx hss hended has h hm hbegins
    obtain ⟨kept, specifiers, herase, hkept, hsaid⟩ := erase_of_passes hlex (passes_oneStatement hstatement) hw hrest
    refine ⟨kept, specifiers, herase, hkept, hsaid.trans ?_⟩
    simp only [assignedCast, codeMark, codeWord, typedWord, said_code_cons, said_typed_cons, said_append, said_bracketed, said_map_typed,
      said_nil, List.append_nil]

theorem cast_erased_iff_member : ∃ ps ms, TypeForm NestedPieces .whole false ps ∧ Merges ps ms ∧ beginsCast ms = true ∧
    (∃ e t us rest, tokenize "as Map<string, T>[];".toList 0 .first = .ok (t :: us) ∧ t.lexeme = word "as" ∧
      e.previousText = some "b" ∧ e.expressionEnded = true ∧ Written (ms.map typed) us rest ∧ EndsBefore .whole true true rest ∧
      ∃ e', step e t us = .ok e' ∧ e'.1.rest = rest ∧ lexemes e'.1.kept = [word "b"]) ∧
    ∃ ss ts rest, tokenize "x = (a.b as Map<string, T>[]);".toList 0 .first = .ok ts ∧ Operand ss ∧
      Written (assignedCast "x" "as" ss ms) ts rest ∧ (∀ t ∈ rest, t.isTrivia = true) ∧ ended (said ss).reverse = true ∧
      ∃ kept specifiers, erase "x = (a.b as Map<string, T>[]);" = .ok ⟨String.join (kept.map (·.text)), specifiers⟩ ∧ kept.Sublist ts ∧
        lexemes kept = [word "x", mark "=", mark "(", word "a", mark ".", word "b", mark ")", mark ";"] := by
  have hinner : Between false ([word "string", mark ",", word "T"].map .lexeme) :=
    .leaf rfl rfl rfl rfl nofun (.leaf rfl rfl rfl rfl nofun (.leaf rfl rfl rfl rfl nofun (.nil false)))
  have hform : TypeForm NestedPieces .whole false _ :=
    .whole (.operand (.simple (.primary (.applied (x := "Map") (by decide) .nil hinner) (.cons nestedPieces_nil .nil))))
  let ms := [word "Map", mark "<", word "string", mark ",", word "T", mark ">", mark "[", mark "]"]
  have hmerges : Merges _ ms := .lexeme (.lexeme (.lexeme (.lexeme (.lexeme (.one (.lexeme (.lexeme .nil)))))))
  have hbegins : beginsCast ms = true := rfl
  have has : "as" ∈ ["as", "satisfies"] := by decide
  obtain ⟨hsteps, hassigned⟩ := cast_erased_iff hform hmerges
  refine ⟨_, ms, hform, hmerges, hbegins, ?_, ?_⟩
  · obtain ⟨t, us, hlex, ht, hlexemes, hshape⟩ := exists_cons_of_tokenize "as Map<string, T>[];" (word "as") (ms ++ [mark ";"]) (by cbv)
    obtain ⟨rest, hw, hend⟩ := written_before (List.forall_mem_cons.mp hshape).2 hlexemes rfl
    let e : Eraser := { start (t :: us) with kept := [⟨.identifier, "b", 0, ⟨1, 1⟩⟩] }
    have hprevious : e.previousText = some "b" := rfl
    have hpoint : ∀ dot ∈ [".", "?."], e.previousText ≠ some dot := by
      rw [hprevious]
      decide
    have hended : e.expressionEnded = true := by cbv
    exact ⟨e, t, us, rest, hlex, ht, hprevious, hended, hw, hend,
      (hsteps e t us rest "as" has ht (hpoint "." (by decide)) (hpoint "?." (by decide)) hw hend).mpr ⟨hended, hbegins, rfl⟩⟩
  · have ha : Ordinary "a" := by unfold Ordinary; decide
    have hx : Ordinary "x" := by unfold Ordinary; decide
    have hoperand : Operand [codeWord "a", codeMark ".", codeWord "b"] := .reference (.dot (.primary (.name ha)) (by decide))
    obtain ⟨ts, hlex, hlexemes⟩ : ∃ ts, tokenize "x = (a.b as Map<string, T>[]);".toList 0 .first = .ok ts ∧
        lexemes ts = (assignedCast "x" "as" [codeWord "a", codeMark ".", codeWord "b"] ms).map Sym.lexeme := by
      refine ok_of_map ?_
      cbv
    obtain ⟨rest, hw, hrest⟩ := written_of_lexemes (by decide) (shaped_of_lexFrom (lexFrom_of_tokenize hlex)) hlexemes
    refine ⟨_, ts, rest, hlex, hoperand, hw, fun t ht => (hrest t ht).1, by decide, ?_⟩
    exact hassigned _ ts rest "x" "as" _ hlex hx has hoperand hw (fun t ht => (hrest t ht).1) (by decide) hbegins rfl

/-- A cast stays in the code if its type is a number, or if its operand is a member that is named like an operator. -/
theorem cast_kept_of_number : ∃ ps ms ss ss' ts rest ts' rest', TypeForm NestedPieces .whole false ps ∧ Merges ps ms ∧ Operand ss ∧
    tokenize "x = (e as 1);".toList 0 .first = .ok ts ∧ Written (assignedCast "x" "as" ss ms) ts rest ∧
      erase "x = (e as 1);" = .ok ⟨"x = (e as 1);", []⟩ ∧ Operand ss' ∧ tokenize "x = (e.return as T);".toList 0 .first = .ok ts' ∧
      Written (assignedCast "x" "as" ss' [word "T"]) ts' rest' ∧ erase "x = (e.return as T);" = .ok ⟨"x = (e.return as T);", []⟩ := by
  have hform : TypeForm NestedPieces .whole false _ :=
    .whole (.operand (.simple (.primary (.literal (m := (.number, "1")) rfl) .nil)))
  have hmerges : Merges _ [(.number, "1")] := .lexeme .nil
  have he : Ordinary "e" := by unfold Ordinary; decide
  have hoperand : Operand [codeWord "e"] := .expression (.value (.name he))
  have hmember : Operand [codeWord "e", codeMark ".", codeWord "return"] := .reference (.dot (.primary (.name he)) (by decide))
  obtain ⟨ts, hlex, hlexemes⟩ : ∃ ts, tokenize "x = (e as 1);".toList 0 .first = .ok ts ∧
      lexemes ts = (assignedCast "x" "as" [codeWord "e"] [(.number, "1")]).map Sym.lexeme := by
    refine ok_of_map ?_
    cbv
  obtain ⟨ts', hlex', hlexemes'⟩ : ∃ ts', tokenize "x = (e.return as T);".toList 0 .first = .ok ts' ∧
      lexemes ts' = (assignedCast "x" "as" [codeWord "e", codeMark ".", codeWord "return"] [word "T"]).map Sym.lexeme := by
    refine ok_of_map ?_
    cbv
  obtain ⟨rest, hw, _⟩ := written_of_lexemes (by decide) (shaped_of_lexFrom (lexFrom_of_tokenize hlex)) hlexemes
  obtain ⟨rest', hw', _⟩ := written_of_lexemes (by decide) (shaped_of_lexFrom (lexFrom_of_tokenize hlex')) hlexemes'
  exact ⟨_, _, _, _, ts, rest, ts', rest', hform, hmerges, hoperand, hlex, hw, by cbv, hmember, hlex', hw', by cbv⟩

end Casts

end ScriptLoader.Syntax
