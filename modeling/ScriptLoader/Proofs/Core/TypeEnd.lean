import Mathlib
import ScriptLoader.Proofs.Core.Conditional
import ScriptLoader.Proofs.Core.Erasure

/-!
# Where a type ends

A variable with its type, or a type alias, may end without a semicolon in front of the next statement. Line breaks mean nothing where types
are skipped, so skipping goes on with whatever may stand behind the end of the type: an opening square bracket, which is read as an array
suffix, and `is` behind a name, which is read as a type predicate. Exactly then something of the next statement is skipped
(`next_statement_kept_iff`). A core program with other type aliases that have no semicolon is erased to the code of its statements
(`erase_openAlias`).
-/

namespace ScriptLoader.Syntax

open Eraser

/-! ## Types and their ends -/

/-- How an operand ends. -/
inductive TypeEnding where
  /-- With a name, which may have arguments. -/
  | name
  /-- With the name `asserts`, which is read as a word before an operand where one follows. -/
  | asserts
  /-- With a literal, a bracket or an array suffix. -/
  | primary
  /-- With a negated number. -/
  | number
  /-- Skipping ends earlier, in front of the array suffix of a negated number. -/
  | cut
  deriving DecidableEq, Repr

/-- Behind an operand that ends like this, the lexeme is skipped with it. -/
def TypeEnding.eats : TypeEnding → Lexeme → Bool
  | .name, m => m.2 == "[" || m == word "is"
  | .asserts, m => beginsPrefixed [m]
  | .primary, m => m.2 == "["
  | .number, _ => false
  | .cut, _ => false

/-- An operand of a union or an intersection. -/
inductive OperandText : TypeEnding → List Lexeme → Prop where
  | name {ms : List Lexeme} (h : Named ms) : OperandText .name ms
  | asserts : OperandText .asserts [word "asserts"]
  | array {name group suffixes : List Lexeme} (h : Named name) (hgroup : Group .square group) (hsuffixes : Suffixes suffixes) :
      OperandText .primary (name ++ (group ++ suffixes))
  | literal {m : Lexeme} {suffixes : List Lexeme} (hm : isLiteralKind m.1 = true) (hsuffixes : Suffixes suffixes) :
      OperandText .primary (m :: suffixes)
  | group (b : Bracket) {group suffixes : List Lexeme} (h : Group b group) (hsuffixes : Suffixes suffixes) :
      OperandText .primary (group ++ suffixes)
  | negative {m : Lexeme} (hm : m.1 = .number) : OperandText .number [mark "-", m]
  | negativeArray {m : Lexeme} {group suffixes : List Lexeme} (hm : m.1 = .number) (hgroup : Group .square group)
      (hsuffixes : Suffixes suffixes) : OperandText .cut ([mark "-", m] ++ (group ++ suffixes))

/-- Operands that are joined. -/
inductive UnionText : TypeEnding → List Lexeme → Prop where
  | one {ending : TypeEnding} {ms : List Lexeme} (h : OperandText ending ms) : UnionText ending ms
  | more {first ending : TypeEnding} {op : String} {ms others : List Lexeme} (hop : op ∈ ["|", "&"]) (h : OperandText first ms)
      (hothers : UnionText ending others) : UnionText (if first = .cut then .cut else ending) (ms ++ mark op :: others)

/-- A type of names with arguments, literals, arrays, tuples and object types, and unions and intersections of these. -/
inductive PlainType : TypeEnding → List Lexeme → Prop where
  | plain {ending : TypeEnding} {ms : List Lexeme} (h : UnionText ending ms) : PlainType ending ms
  | leading {ending : TypeEnding} {op : String} {ms : List Lexeme} (hop : op ∈ ["|", "&"]) (h : UnionText ending ms) :
      PlainType ending (mark op :: ms)

/-- A statement may begin with the lexeme, and not with a mark that joins types. -/
def opensStatement (m : Lexeme) : Bool := !([".", "<", "=>", ";", "|", "&"].contains m.2) && m != word "extends"

section Lexemes

variable {m : Lexeme} {ending : TypeEnding} {ms : List Lexeme}

theorem opensStatement_iff : opensStatement m = true ↔
    (m.2 ≠ "." ∧ m.2 ≠ "<" ∧ m.2 ≠ "=>") ∧ m.2 ≠ ";" ∧ m.2 ≠ "|" ∧ m.2 ≠ "&" ∧ m ≠ word "extends" := by
  simp only [opensStatement, Bool.and_eq_true, Bool.not_eq_true', List.contains_eq_mem, decide_eq_false_iff_not, List.mem_cons,
    List.not_mem_nil, or_false, not_or, bne_iff_ne]
  tauto

/-- Nothing eats a mark that joins operands. -/
theorem eats_join {op : String} (hop : op ∈ ["|", "&"]) (ending : TypeEnding) : ending.eats (mark op) = false := by
  rcases List.mem_cons.mp hop with rfl | hop
  · cases ending <;> decide
  · rw [List.mem_singleton.mp hop]
    cases ending <;> decide

theorem exists_cons_of_named (h : Named ms) : ∃ x ms', ms = word x :: ms' ∧ x ∉ typePrefixes := by
  cases h with
  | plain hname _ => exact ⟨_, _, rfl, hname⟩
  | applied hname _ _ => exact ⟨_, _, rfl, hname⟩

theorem exists_cons_of_group {b : Bracket} (h : Group b ms) : ∃ ms', ms = mark b.opener :: ms' := by
  obtain ⟨_⟩ := h
  exact ⟨_, rfl⟩

/-- What an operand begins with. -/
theorem exists_cons_of_operand (h : OperandText ending ms) : ∃ m ms', ms = m :: ms' ∧ (m.1 = .punctuation → m.2 ∉ ["|", "&", "<"]) ∧
    (ending ≠ .asserts → m.1 = .identifier → m.2 ∉ typePrefixes) := by
  have hopener (b : Bracket) : b.opener ∉ ["|", "&", "<"] := by cases b <;> decide
  cases h with
  | name h =>
    obtain ⟨x, ms', rfl, hx⟩ := exists_cons_of_named h
    exact ⟨_, _, rfl, nofun, fun _ _ => hx⟩
  | asserts => exact ⟨_, _, rfl, nofun, fun hne => absurd rfl hne⟩
  | array h hgroup hsuffixes =>
    obtain ⟨x, ms', rfl, hx⟩ := exists_cons_of_named h
    exact ⟨_, _, rfl, nofun, fun _ _ => hx⟩
  | literal hm hsuffixes =>
    refine ⟨_, _, rfl, fun hkind => ?_, fun _ hkind => ?_⟩ <;> rw [hkind] at hm <;> nomatch hm
  | group b h hsuffixes =>
    obtain ⟨ms', rfl⟩ := exists_cons_of_group h
    exact ⟨_, _, rfl, fun _ => hopener b, nofun⟩
  | negative hm => exact ⟨_, _, rfl, fun _ => by decide, nofun⟩
  | negativeArray hm hgroup hsuffixes => exact ⟨_, _, rfl, fun _ => by decide, nofun⟩

end Lexemes

section Skipping

variable {ending : TypeEnding} {ms : List Lexeme} {ts rest left : List Token} {m : Lexeme}

/-! ## One operand -/

/-- An array suffix is skipped, if skipping succeeds at all. -/
theorem skipSuffixes_lt (hm : (lexemes rest).head? = some m) (hbracket : m.2 = "[")
    (h : (skipSuffixes rest).map (·.tokens) = .ok left) : left.length < rest.length := by
  have hopen : headIn (significant rest) ["["] = true := by
    rw [headIn_significant, hm, Option.any_some, hbracket]
    rfl
  rw [skipSuffixes, if_pos hopen] at h
  cases hskip : skipBracket .square (significant rest) with
  | error e =>
    rw [hskip] at h
    simp [Except.map] at h
  | ok r =>
    rw [hskip] at h
    obtain ⟨r₁, hr₁, rfl⟩ := ok_of_map h
    obtain ⟨r₂, _, rfl⟩ := ok_of_map hr₁
    calc r₂.tokens.length ≤ r.tokens.length := r₂.length_le
      _ < (significant rest).length := r.shorter
      _ ≤ rest.length := (significant_suffix rest).length_le

section Asserts

variable {t : Token} {us : List Token}

theorem precedesOperand_eq (hkind : t.kind = .identifier) (htext : t.text ∈ typePrefixes) :
    (t.kind = .identifier && typePrefixes.contains t.text &&
      (headKind (significant us) = some .identifier || headKind (significant us) = some .string ||
        headIn (significant us) ["(", "[", "\x7b", "<"])) = beginsPrefixed (lexemes us) := by
  rw [headKind_significant, headIn_significant, hkind, List.contains_iff_mem.mpr htext, beginsPrefixed]
  cases (lexemes us).head? with
  | none => rfl
  | some m => simp [Bool.beq_eq_decide_eq]

/-- A word before an operand is skipped with it. -/
theorem skipOperand_eq_prefixed (hkind : t.kind = .identifier) (htext : t.text ∈ typePrefixes)
    (hnext : beginsPrefixed (lexemes us) = true) :
    (skipOperand (t :: us)).map (·.tokens) = (skipOperand (significant us)).map (·.tokens) := by
  rw [skipOperand, if_pos ((precedesOperand_eq hkind htext).trans hnext)]
  cases skipOperand (significant us) <;> rfl

/-- Where no operand follows, the word is a name. -/
theorem skipOperand_eq_unprefixed (hshape : t.Shaped) (hkind : t.kind = .identifier) (htext : t.text ∈ typePrefixes)
    (hnext : beginsPrefixed (lexemes us) = false) : skipOperand (t :: us) = skipSimple (t :: us) := by
  rw [skipOperand, if_neg (by rw [precedesOperand_eq hkind htext, hnext]; exact Bool.false_ne_true), if_neg]
  exact text_ne_of_kind hshape (by rw [hkind]; decide) (by decide)

end Asserts

/-- Behind an operand that does not begin with a word before it, skipping is what it is without such words. -/
theorem skipOperand_of_operand (h : OperandText ending ms) (hending : ending ≠ .asserts) (hw : Written (ms.map typed) ts rest) :
    skipOperand (significant ts) = skipSimple (significant ts) := by
  obtain ⟨m, ms', rfl, hmark, hname⟩ := exists_cons_of_operand h
  exact skipOperand_eq_skipSimple (hname hending) (fun hkind heq => hmark hkind (by rw [heq]; decide)) hw

/-- What is skipped behind an operand. -/
def afterOperand : TypeEnding → List Token → Except Refusal (List Token)
  | .name, rest => afterName rest
  | .asserts, rest =>
    if beginsPrefixed (lexemes rest) then (skipOperand (significant rest)).map (·.tokens) else afterName rest
  | .primary, rest => (skipSuffixes rest).map (·.tokens)
  | .number, rest | .cut, rest => .ok rest

/-- What goes on with a name or with parameters does not follow. -/
def Detached (rest : List Token) : Prop := ∀ m, (lexemes rest).head? = some m → m.2 ≠ "." ∧ m.2 ≠ "<" ∧ m.2 ≠ "=>"

theorem detached_of_group {b : Bracket} {group others : List Lexeme} (h : Group b group) (hw : Written ((group ++ others).map typed) ts rest) :
    (lexemes ts).head? = some (mark b.opener) ∧ Detached ts := by
  obtain ⟨ms', rfl⟩ := exists_cons_of_group h
  have hhead : (lexemes ts).head? = some (mark b.opener) := by
    rw [hw.lexemes_eq]
    rfl
  refine ⟨hhead, fun m hm => ?_⟩
  rw [hhead] at hm
  rw [← Option.some.inj hm]
  cases b <;> decide

/-- An operand is skipped, and then what goes on with its end. -/
theorem skipOperand_eq (h : OperandText ending ms) (hending : ending ≠ .cut) (hw : Written (ms.map typed) ts rest) (hrest : Detached rest) :
    (skipOperand (significant ts)).map (·.tokens) = afterOperand ending rest := by
  have hname : ∀ m, (lexemes rest).head? = some m → m.2 ≠ "." ∧ m.2 ≠ "<" := fun m hm => ⟨(hrest m hm).1, (hrest m hm).2.1⟩
  cases h with
  | name h =>
    rw [skipOperand_of_operand (.name h) nofun hw]
    exact skipSimple_eq_of_name h.text hw hname
  | asserts =>
    have htext : NameText [word "asserts"] := ⟨_, [], [], rfl, .nil, .inl rfl⟩
    have hsimple := skipSimple_eq_of_name htext hw hname
    obtain ⟨t, us, hsig, _, hshape, ht, hnil⟩ := hw.significant
    obtain rfl := Written.nil_iff.mp hnil
    obtain ⟨hkind, hasserts⟩ := lexeme_eq_word ht
    have hprefix : t.text ∈ typePrefixes := by rw [hasserts]; decide
    rw [hsig] at hsimple ⊢
    rw [afterOperand]
    split
    · rename_i hnext
      exact skipOperand_eq_prefixed hkind hprefix hnext
    · rename_i hnext
      rw [skipOperand_eq_unprefixed hshape hkind hprefix (Bool.eq_false_iff.mpr hnext)]
      exact hsimple
  | @array name group suffixes h hgroup hsuffixes =>
    rw [skipOperand_of_operand (.array h hgroup hsuffixes) nofun hw]
    rw [List.map_append] at hw
    obtain ⟨mid, hfirst, hsecond⟩ := hw.split
    obtain ⟨hhead, hmid⟩ := detached_of_group hgroup hsecond
    rw [skipSimple_eq_of_name h.text hfirst fun m hm => ⟨(hmid m hm).1, (hmid m hm).2.1⟩, afterName_of_other fun m hm => ?_]
    · exact skipSuffixes_eq (.cons hgroup hsuffixes) hsecond
    · rw [hhead] at hm
      rw [← Option.some.inj hm]
      decide
  | @literal m suffixes hm hsuffixes =>
    rw [skipOperand_of_operand (.literal hm hsuffixes) nofun hw]
    obtain ⟨mid, hfirst, hsecond⟩ : ∃ mid, Written [typed m] ts mid ∧ Written (suffixes.map typed) mid rest := Written.split hw
    rw [skipSimple_eq_of_literal hm hfirst]
    exact skipSuffixes_eq hsuffixes hsecond
  | @group b group suffixes h hsuffixes =>
    rw [skipOperand_of_operand (.group b h hsuffixes) nofun hw]
    rw [List.map_append] at hw
    obtain ⟨mid, hfirst, hsecond⟩ := hw.split
    rw [skipSimple_eq_of_group h hfirst]
    · exact skipSuffixes_eq hsuffixes hsecond
    · -- behind the group stands a suffix, or what follows the type
      intro _ m hm
      cases hsuffixes with
      | nil =>
        rw [List.map_nil, Written.nil_iff] at hsecond
        exact (hrest m (hsecond ▸ hm)).2.2
      | cons hgroup _ => exact ((detached_of_group hgroup hsecond).2 m hm).2.2
  | negative hm =>
    rw [skipOperand_of_operand (.negative hm) nofun hw]
    exact leavesTail_iff.mp (skipSimple_of_negative hm hw)
  | negativeArray => exact absurd rfl hending

/-- In front of the array suffix of a negated number, skipping an operand ends. -/
theorem skipOperand_of_cut (h : OperandText .cut ms) (hw : Written (ms.map typed) ts rest) :
    ∃ mid, LeavesTail (skipOperand (significant ts)) mid ∧ (lexemes mid).head? = some (mark "[") ∧ rest <:+ mid := by
  cases h with
  | @negativeArray m group suffixes hm hgroup hsuffixes =>
    rw [skipOperand_of_operand (.negativeArray hm hgroup hsuffixes) nofun hw]
    rw [List.map_append] at hw
    obtain ⟨mid, hfirst, hsecond⟩ := hw.split
    exact ⟨mid, skipSimple_of_negative hm hfirst, (detached_of_group hgroup hsecond).1, hsecond.suffix⟩

/-- What does not go on with the end of an operand stays. -/
theorem afterOperand_of_stays (hm : (lexemes rest).head? = some m) (hstays : ending.eats m = false) : afterOperand ending rest = .ok rest := by
  have hsuffixes (hbracket : m.2 ≠ "[") : (skipSuffixes rest).map (·.tokens) = .ok rest := by
    refine leaves_iff.mp (skipSuffixes_of_end fun m' hm' => ?_)
    rw [hm] at hm'
    exact Option.some.inj hm' ▸ hbracket
  have hname (hbracket : m.2 ≠ "[") (his : m ≠ word "is") : afterName rest = .ok rest := by
    rw [afterName_of_other fun m' hm' => ?_]
    · exact hsuffixes hbracket
    · rw [hm] at hm'
      exact Option.some.inj hm' ▸ his
  cases ending with
  | name =>
    simp only [TypeEnding.eats, Bool.or_eq_false_iff, beq_eq_false_iff_ne] at hstays
    exact hname hstays.1 hstays.2
  | asserts =>
    have hnext : beginsPrefixed (lexemes rest) = false := by
      rw [beginsPrefixed, hm]
      exact hstays
    simp only [afterOperand, hnext, Bool.false_eq_true, if_false]
    simp only [TypeEnding.eats, beginsPrefixed, List.head?_cons, Option.any_some, Bool.or_eq_false_iff, beq_eq_false_iff_ne] at hstays
    refine hname (fun hbracket => ?_) (fun his => hstays.1.1 (by rw [his]))
    simp [hbracket] at hstays
  | primary =>
    simp only [TypeEnding.eats, beq_eq_false_iff_ne] at hstays
    exact hsuffixes hstays
  | number => rfl
  | cut => rfl

/-- Of what goes on with it something is skipped. -/
theorem afterOperand_lt (hm : (lexemes rest).head? = some m) (heats : ending.eats m = true) (h : afterOperand ending rest = .ok left) :
    left.length < rest.length := by
  have hsuffixes (hbracket : m.2 = "[") (h : (skipSuffixes rest).map (·.tokens) = .ok left) := skipSuffixes_lt hm hbracket h
  cases ending with
  | name =>
    simp only [TypeEnding.eats, Bool.or_eq_true, beq_iff_eq] at heats
    rcases heats with hbracket | his
    · refine hsuffixes hbracket ((afterName_of_other fun m' hm' his => ?_).symm.trans h)
      rw [hm, his] at hm'
      rw [Option.some.inj hm'] at hbracket
      exact absurd hbracket (by decide)
    · obtain ⟨w, vs, hsig, _, hw⟩ := exists_of_head?_lexemes hm
      rw [his] at hw
      obtain ⟨r, _, rfl⟩ := ok_of_map ((afterName_of_is hsig hw).symm.trans h)
      calc r.tokens.length < vs.length := r.shorter
        _ ≤ (w :: vs).length := by simp
        _ = (significant rest).length := by rw [hsig]
        _ ≤ rest.length := (significant_suffix rest).length_le
  | asserts =>
    have hnext : beginsPrefixed (lexemes rest) = true := by
      rw [beginsPrefixed, hm]
      exact heats
    rw [afterOperand, hnext, if_pos rfl] at h
    obtain ⟨r, _, rfl⟩ := ok_of_map h
    exact Nat.lt_of_lt_of_le r.shorter (significant_suffix rest).length_le
  | primary =>
    simp only [TypeEnding.eats, beq_iff_eq] at heats
    exact hsuffixes heats h
  | number => simp [TypeEnding.eats] at heats
  | cut => simp [TypeEnding.eats] at heats

/-! ## Unions and types -/

/-- Skips an operand and what is joined to it. -/
def skipJoined (ts : List Token) : Except Refusal (List Token) :=
  (skipOperand (significant ts)).bind fun r => (skipMore r.tokens).map (·.tokens)

theorem skipJoined_eq {mid : List Token} (h : (skipOperand (significant ts)).map (·.tokens) = .ok mid) :
    skipJoined ts = (skipMore mid).map (·.tokens) := by
  obtain ⟨r, hr, rfl⟩ := ok_of_map h
  rw [skipJoined, hr]
  rfl

/-- Skipping goes on behind a mark that joins operands. -/
theorem skipJoined_of_join {first : TypeEnding} {op : String} {others : List Lexeme} (hop : op ∈ ["|", "&"]) (h : OperandText first ms)
    (hfirst : first ≠ .cut) (hw : Written ((ms ++ mark op :: others).map typed) ts rest) :
    ∃ us, Written (others.map typed) us rest ∧ skipJoined ts = skipJoined us := by
  rw [List.map_append, List.map_cons] at hw
  obtain ⟨mid, hmsw, hsecond⟩ := hw.split
  obtain ⟨t, us, hsig, _, _, ht, hothersw⟩ := hsecond.significant
  have hhead : (lexemes mid).head? = some (mark op) := by rw [head?_lexemes hsig]; exact congrArg some ht
  have hmid : Detached mid := by
    intro m' hm'
    rw [hhead] at hm'
    rw [← Option.some.inj hm']
    exact (by decide : ∀ op ∈ ["|", "&"], op ≠ "." ∧ op ≠ "<" ∧ op ≠ "=>") op hop
  have hskip := (skipOperand_eq h hfirst hmsw hmid).trans (afterOperand_of_stays hhead (eats_join hop first))
  refine ⟨us, hothersw, ?_⟩
  rw [skipJoined_eq hskip, skipMore_eq_bind hop hsig ht]
  rfl

/-- In front of the array suffix of a negated number, skipping ends. -/
theorem skipJoined_of_cut {mid : List Token} (h : OperandText .cut ms) (hw : Written (ms.map typed) ts mid) :
    ∃ left, skipJoined ts = .ok left ∧ mid <:+ left := by
  obtain ⟨left, hskip, hhead, hsuffix⟩ := skipOperand_of_cut h hw
  refine ⟨left, ?_, hsuffix⟩
  rw [skipJoined_eq (leavesTail_iff.mp hskip)]
  exact leaves_iff.mp (skipMore_of_suffix hhead)

/-- What follows a type may begin a statement. -/
theorem detached_of_opens (hm : (lexemes rest).head? = some m) (hopens : opensStatement m = true) : Detached rest := by
  intro m' hm'
  rw [hm] at hm'
  exact Option.some.inj hm' ▸ (opensStatement_iff.mp hopens).1

/-- Nothing of `rest` is skipped, and where skipping is not cut short, all that stands before it is. -/
def Spares (ending : TypeEnding) (rest left : List Token) : Prop := rest <:+ left ∧ (ending ≠ .cut → left = rest)

/-- Of what does not go on with the last of some operands nothing is skipped behind them. -/
theorem skipJoined_of_stays (h : UnionText ending ms) (hw : Written (ms.map typed) ts rest) (hm : (lexemes rest).head? = some m)
    (hopens : opensStatement m = true) (hstays : ending.eats m = false) : ∃ left, skipJoined ts = .ok left ∧ Spares ending rest left := by
  have hcut {ts mid : List Token} {ms : List Lexeme} (h : OperandText .cut ms) (hw : Written (ms.map typed) ts mid)
      (hsuffix : rest <:+ mid) : ∃ left, skipJoined ts = .ok left ∧ Spares .cut rest left := by
    obtain ⟨left, hskip, hmid⟩ := skipJoined_of_cut h hw
    exact ⟨left, hskip, hsuffix.trans hmid, fun hne => absurd rfl hne⟩
  induction h generalizing ts with
  | @one ending ms h =>
    by_cases hending : ending = .cut
    · subst hending
      exact hcut h hw (List.suffix_refl rest)
    · have hskip := (skipOperand_eq h hending hw (detached_of_opens hm hopens)).trans (afterOperand_of_stays hm hstays)
      obtain ⟨_, _, hbar, hand, hextends⟩ := opensStatement_iff.mp hopens
      have hmore : Leaves (skipMore rest) rest := by
        refine skipMore_of_stop fun m' hm' => ?_
        rw [hm] at hm'
        exact Option.some.inj hm' ▸ ⟨hbar, hand, hextends⟩
      exact ⟨rest, (skipJoined_eq hskip).trans (leaves_iff.mp hmore), List.suffix_refl rest, fun _ => rfl⟩
  | @more first ending op ms others hop h hothers ih =>
    by_cases hfirst : first = .cut
    · subst hfirst
      rw [List.map_append] at hw
      obtain ⟨mid, hmsw, hsecond⟩ := hw.split
      exact hcut h hmsw hsecond.suffix
    · rw [if_neg hfirst] at hstays ⊢
      obtain ⟨us, hothersw, hskip⟩ := skipJoined_of_join hop h hfirst hw
      rw [hskip]
      exact ih hothersw hstays

/-- Of what goes on with the last of some operands something is skipped, if skipping succeeds at all. -/
theorem skipJoined_of_eats (h : UnionText ending ms) (hw : Written (ms.map typed) ts rest) (hm : (lexemes rest).head? = some m)
    (hopens : opensStatement m = true) (heats : ending.eats m = true) (hskip : skipJoined ts = .ok left) : left.length < rest.length := by
  induction h generalizing ts with
  | @one ending ms h =>
    have hending : ending ≠ .cut := by
      rintro rfl
      nomatch heats
    have hbehind := skipOperand_eq h hending hw (detached_of_opens hm hopens)
    cases hoperand : skipOperand (significant ts) with
    | error err =>
      rw [skipJoined, hoperand] at hskip
      nomatch hskip
    | ok r =>
      rw [hoperand] at hbehind
      rw [skipJoined, hoperand] at hskip
      obtain ⟨r', _, rfl⟩ := ok_of_map hskip
      exact Nat.lt_of_le_of_lt r'.length_le (afterOperand_lt hm heats hbehind.symm)
  | @more first ending op ms others hop h hothers ih =>
    have hfirst : first ≠ .cut := by
      rintro rfl
      nomatch heats
    rw [if_neg hfirst] at heats
    obtain ⟨us, hothersw, heq⟩ := skipJoined_of_join hop h hfirst hw
    exact ih hothersw heats (heq.symm.trans hskip)

/-- A type is skipped as its operands. -/
theorem exists_skipType_eq (h : PlainType ending ms) (hw : Written (ms.map typed) ts rest) :
    ∃ ms' us, UnionText ending ms' ∧ Written (ms'.map typed) us rest ∧ (skipType ts).map (·.tokens) = skipJoined us := by
  cases h with
  | plain h =>
    obtain ⟨e, first, others, hoperand, rfl⟩ : ∃ e first others, OperandText e first ∧ ms = first ++ others := by
      cases h with
      | one h => exact ⟨_, _, [], h, (List.append_nil _).symm⟩
      | more hop h hothers => exact ⟨_, _, _, h, rfl⟩
    obtain ⟨m, ms', rfl, hmark, _⟩ := exists_cons_of_operand hoperand
    refine ⟨_, ts, h, hw, skipType_eq_bind (firstOperand_of_head (fun hkind hmem => hmark hkind ?_) hw)⟩
    exact (by decide : ["|", "&"] ⊆ ["|", "&", "<"]) hmem
  | leading hop h =>
    obtain ⟨t, us, hsig, _, _, ht, hrest⟩ := hw.significant
    exact ⟨_, us, h, hrest, skipType_eq_bind (firstOperand_of_leading hop hsig ht)⟩

theorem skipType_of_stays (h : PlainType ending ms) (hw : Written (ms.map typed) ts rest) (hm : (lexemes rest).head? = some m)
    (hopens : opensStatement m = true) (hstays : ending.eats m = false) : ∃ r, skipType ts = .ok r ∧ Spares ending rest r.tokens := by
  obtain ⟨ms', us, hunion, hus, heq⟩ := exists_skipType_eq h hw
  obtain ⟨left, hskip, hspares⟩ := skipJoined_of_stays hunion hus hm hopens hstays
  obtain ⟨r, hr, rfl⟩ := ok_of_map (heq.trans hskip)
  exact ⟨r, hr, hspares⟩

theorem skipType_of_eats (h : PlainType ending ms) (hw : Written (ms.map typed) ts rest) (hm : (lexemes rest).head? = some m)
    (hopens : opensStatement m = true) (heats : ending.eats m = true) {r : Tail ts} (hskip : skipType ts = .ok r) :
    r.tokens.length < rest.length := by
  obtain ⟨ms', us, hunion, hus, heq⟩ := exists_skipType_eq h hw
  rw [hskip] at heq
  exact skipJoined_of_eats hunion hus hm hopens heats heq.symm

/-! ## Declarations without a semicolon -/

/-- A colon with a type is skipped. -/
theorem step_of_annotation {e : Eraser} {t : Token} (ht : t.lexeme = mark ":") (hannotates : e.annotates = true) :
    step e t ts = (skipType ts).map fun r => skipTo e r.toRest.afterHead := by
  obtain ⟨hkind, htext⟩ := lexeme_eq_mark ht
  rw [step_of_other hkind (by rw [htext]; decide), onMark, if_neg (by rw [htext]; decide), htext, hannotates]
  cases skipType ts <;> rfl

/-- What is left from some lexeme on is behind the first lexeme, if that is another one. -/
theorem suffix_tail_significant (hsuffix : rest <:+ left) (hm : (lexemes rest).head? = some m) (hne : (lexemes left).head? ≠ some m) :
    rest <:+ (significant left).tail := by
  induction left with
  | nil =>
    rw [List.suffix_nil.mp hsuffix] at hm
    nomatch hm
  | cons t ts ih =>
    rcases List.suffix_cons_iff.mp hsuffix with rfl | hsuffix
    · exact absurd hm hne
    cases htrivia : t.isTrivia with
    | true =>
      rw [lexemes_cons_of_trivia htrivia] at hne
      rw [show significant (t :: ts) = significant ts from List.dropWhile_cons_of_pos htrivia]
      exact ih hsuffix hne
    | false =>
      rw [significant_cons_of_not htrivia, List.tail_cons]
      exact hsuffix

/-- A semicolon that stands behind a type is none of what follows. -/
theorem Spares.skipSemicolon (h : Spares ending rest left) (hm : (lexemes rest).head? = some m) (hne : m.2 ≠ ";") :
    Spares ending rest (skipSemicolon left).tokens := by
  have hother {ts : List Token} (hhead : (lexemes ts).head? = some m) : headIn (significant ts) [";"] = false := by
    rw [headIn_significant, hhead, Option.any_some]
    exact Bool.eq_false_iff.mpr fun hmem => hne (List.mem_singleton.mp (List.contains_iff_mem.mp hmem))
  cases hsemicolon : headIn (significant left) [";"] with
  | false =>
    rw [skipSemicolon_of_other hsemicolon]
    exact h
  | true =>
    have hhead : (lexemes left).head? ≠ some m := by
      intro hhead
      rw [hother hhead] at hsemicolon
      nomatch hsemicolon
    have htail : (Syntax.skipSemicolon left).tokens = (significant left).tail := by
      simp only [Syntax.skipSemicolon, Rest.significant, Rest.whole, Rest.tail, hsemicolon, if_true]
    refine ⟨?_, fun hending => absurd hm (h.2 hending ▸ hhead)⟩
    rw [htail]
    exact suffix_tail_significant h.1 hm hhead

/-- Let a type be followed by the first lexeme of a statement. Erasing it with the colon before it, or with the type alias that it is the
type of, takes nothing of the statement if and only if the lexeme does not go on with the end of the type: an opening square bracket goes on
with everything but a negated number, and `is` with a name. -/
theorem next_statement_kept_iff (h : PlainType ending ms) (hm : (lexemes rest).head? = some m) (hopens : opensStatement m = true) :
    (∀ (e : Eraser) (t : Token) (ts : List Token), e.annotates = true → t.lexeme = mark ":" → Written (ms.map typed) ts rest →
      ((∃ e', step e t ts = .ok e' ∧ e'.1.kept = e.kept ∧ Spares ending rest e'.1.rest) ↔ ending.eats m = false)) ∧
    ∀ (e : Eraser) (t : Token) (us : List Token) (name : String) (parameters : List Sym), e.BeginsStatement → t.lexeme = word "type" →
      Arguments parameters → Written (typedWord name :: (parameters ++ typedMark "=" :: ms.map typed)) us rest →
      ((∃ e', step e t us = .ok e' ∧ e'.1.kept = e.retractExport.kept ∧ Spares ending rest e'.1.rest) ↔ ending.eats m = false) := by
  constructor
  · intro e t ts hannotates ht hw
    have hstep : step e t ts = (skipType ts).map fun r => skipTo e r.toRest.afterHead := step_of_annotation ht hannotates
    constructor
    · rintro ⟨e', hok, _, hspares⟩
      refine Bool.eq_false_iff.mpr fun heats => ?_
      obtain ⟨r, hr, rfl⟩ := ok_of_map (hstep.symm.trans hok)
      exact absurd hspares.1.length_le (Nat.not_le.mpr (skipType_of_eats h hw hm hopens heats hr))
    · intro hstays
      obtain ⟨r, hr, hspares⟩ := skipType_of_stays h hw hm hopens hstays
      exact ⟨skipTo e r.toRest.afterHead, by rw [hstep, hr]; rfl, rfl, hspares⟩
  · intro e t us name parameters hbegins ht hparameters hw
    obtain ⟨us', hw', hstep⟩ := exists_step_eq_of_alias hbegins ht hparameters hw
    constructor
    · rintro ⟨e', hok, _, hspares⟩
      refine Bool.eq_false_iff.mpr fun heats => ?_
      rw [hok] at hstep
      obtain ⟨r, hr, hpair⟩ := ok_of_map hstep.symm
      have hleft : (skipSemicolon r.tokens).tokens = e'.1.rest := (Prod.mk.inj hpair).1
      have hshort := skipType_of_eats h hw' hm hopens heats hr
      have hle := (skipSemicolon r.tokens).length_le
      have hle' := hspares.1.length_le
      rw [hleft] at hle
      omega
    · intro hstays
      obtain ⟨r, hr, hspares⟩ := skipType_of_stays h hw' hm hopens hstays
      rw [hr] at hstep
      obtain ⟨e', hok, hpair⟩ := ok_of_map hstep
      obtain ⟨hrest, hkept⟩ := Prod.mk.inj hpair
      refine ⟨e', hok, hkept, ?_⟩
      rw [hrest]
      exact hspares.skipSemicolon hm (opensStatement_iff.mp hopens).2.1

/-- A negated number ends a type even in front of an opening square bracket. -/
theorem next_statement_kept_iff_number : ∃ (e : Eraser) (t : Token) (ts rest : List Token) (ms : List Lexeme) (e' : Next (t :: ts)),
    PlainType .number ms ∧ (lexemes rest).head? = some (mark "[") ∧ opensStatement (mark "[") = true ∧
      tokenize "let x: A | -1\n[y].f();".toList 0 .first = .ok (e.passed.reverse ++ t :: ts) ∧
      Reaches (start (e.passed.reverse ++ t :: ts)) e ∧ e.annotates = true ∧ t.lexeme = mark ":" ∧ Written (ms.map typed) ts rest ∧
      step e t ts = .ok e' ∧ e'.1.kept = e.kept ∧ e'.1.rest = rest ∧
      erase "let x: A | -1\n[y].f();" = .ok ⟨"let x\n[y].f();", []⟩ := by
  let declares : Token := ⟨.identifier, "let", 0, ⟨1, 1⟩⟩
  let gap : Token := ⟨.blank, " ", 3, ⟨1, 4⟩⟩
  let name : Token := ⟨.identifier, "x", 4, ⟨1, 5⟩⟩
  let colon : Token := ⟨.punctuation, ":", 5, ⟨1, 6⟩⟩
  let others : List Token :=
    [⟨.blank, " ", 6, ⟨1, 7⟩⟩, ⟨.identifier, "A", 7, ⟨1, 8⟩⟩, ⟨.blank, " ", 8, ⟨1, 9⟩⟩, ⟨.punctuation, "|", 9, ⟨1, 10⟩⟩,
     ⟨.blank, " ", 10, ⟨1, 11⟩⟩, ⟨.punctuation, "-", 11, ⟨1, 12⟩⟩, ⟨.number, "1", 12, ⟨1, 13⟩⟩, ⟨.blank, "\n", 13, ⟨1, 14⟩⟩,
     ⟨.punctuation, "[", 14, ⟨2, 1⟩⟩, ⟨.identifier, "y", 15, ⟨2, 2⟩⟩, ⟨.punctuation, "]", 16, ⟨2, 3⟩⟩, ⟨.punctuation, ".", 17, ⟨2, 4⟩⟩,
     ⟨.identifier, "f", 18, ⟨2, 5⟩⟩, ⟨.punctuation, "(", 19, ⟨2, 6⟩⟩, ⟨.punctuation, ")", 20, ⟨2, 7⟩⟩, ⟨.punctuation, ";", 21, ⟨2, 8⟩⟩]
  let e : Eraser := { start (colon :: others) with
    passed := [name, gap, declares], kept := [name, gap, declares], frame := { Frame.top with declaring := true } }
  have hlex : tokenize "let x: A | -1\n[y].f();".toList 0 .first = .ok (declares :: gap :: name :: colon :: others) := by cbv
  have hshape := (List.forall_mem_cons.mp (List.forall_mem_cons.mp (List.forall_mem_cons.mp (List.forall_mem_cons.mp
    (shaped_of_lexFrom (lexFrom_of_tokenize hlex))).2).2).2).2
  have hname : "A" ∉ typePrefixes := by decide
  have hop : "|" ∈ ["|", "&"] := by decide
  have htype : PlainType .number [word "A", mark "|", mark "-", (.number, "1")] :=
    .plain (.more hop (.name (.plain hname .nil)) (.one (.negative rfl)))
  have hlexemes : lexemes others = ([word "A", mark "|", mark "-", (.number, "1")].map typed).map Sym.lexeme ++
      [mark "[", word "y", mark "]", mark ".", word "f", mark "(", mark ")", mark ";"] := rfl
  obtain ⟨rest, hw, hrest⟩ := exists_written_of_lexemes (glued_map_typed _) hshape hlexemes
  have hm : (lexemes rest).head? = some (mark "[") := by rw [hrest]; rfl
  have hopens : opensStatement (mark "[") = true := by decide
  have hrun : Reaches (start (declares :: gap :: name :: colon :: others)) e := by
    have hdeclares : Steps (start (declares :: gap :: name :: colon :: others))
        { start (gap :: name :: colon :: others) with
          passed := [declares], kept := [declares], frame := { Frame.top with declaring := true } } := .of_eq rfl rfl rfl
    have hgap : Steps { start (gap :: name :: colon :: others) with
          passed := [declares], kept := [declares], frame := { Frame.top with declaring := true } }
        { start (name :: colon :: others) with
          passed := [gap, declares], kept := [gap, declares], frame := { Frame.top with declaring := true } } := .of_eq rfl rfl rfl
    have hvariable : (step { start (name :: colon :: others) with
          passed := [gap, declares], kept := [gap, declares], frame := { Frame.top with declaring := true } } name (colon :: others)).map
        Subtype.val = .ok e := by cbv
    obtain ⟨next, hstep, hnext⟩ := ok_of_map hvariable
    exact .next hdeclares (.next hgap (.single (.of_eq rfl hstep hnext)))
  obtain ⟨e', hstep, hkept, _, hleft⟩ := ((next_statement_kept_iff htype hm hopens).1 e colon others (by cbv) rfl hw).mpr rfl
  exact ⟨e, colon, others, rest, _, e', htype, hm, hopens, hlex, hrun, by cbv, rfl, hw, hstep, hkept, hleft (by decide), by cbv⟩

/-- On the line behind a name, an opening square bracket and `is` are skipped with it, and what they begin is cut to pieces. -/
theorem next_statement_eaten : PlainType .name [word "T"] ∧ opensStatement (mark "[") = true ∧ opensStatement (word "is") = true ∧
    erase "let x: T\n[a, b] = c;" = .ok ⟨"let x = c;", []⟩ ∧ erase "type A = T\n[a].f();" = .ok ⟨".f();", []⟩ ∧
      erase "let x: T\nis(y);" = .ok ⟨"let x;", []⟩ := by
  have hname : "T" ∉ typePrefixes := by decide
  exact ⟨.plain (.one (.name (.plain hname .nil))), by decide, by decide, by cbv, by cbv, by cbv⟩

/-! ## Programs with type aliases that have no semicolon -/

section View

variable {v : View} {name : String} {parameters : List Sym}

/-- A type alias is erased up to a statement that does not go on with its type, and with it an `export` before it. -/
theorem goes_openAlias (hparameters : Arguments parameters) (h : PlainType ending ms) (hending : ending ≠ .cut)
    (hw : Written (typedWord "type" :: typedWord name :: (parameters ++ typedMark "=" :: ms.map typed)) v.rest rest)
    (hm : (lexemes rest).head? = some m) (hopens : opensStatement m = true) (hstays : ending.eats m = false)
    (hbefore : ∀ m, v.said.head? = some m → m.2 ∈ boundaries) (hround : (v.retracted rest).said.head? ≠ some (mark ")")) :
    Goes v (v.retracted rest) := by
  obtain ⟨t, us, _, _, _, ht, hus, hgo⟩ := goes_to_symbol hw
  refine hgo _ fun e he => ?_
  obtain ⟨s, others, hhead, hs⟩ := exists_head_of_alias hparameters (ms.map typed)
  rw [hhead] at hus
  obtain ⟨mid, hmid, f, hf, hstep⟩ := step_of_typeAlias (he.beginsStatement hbefore) ht hus hs
  obtain ⟨us', htype, hskip⟩ := skipTypeAlias_eq hparameters (hhead ▸ hmid)
  obtain ⟨r, hr, hspares⟩ := skipType_of_stays h htype hm hopens hstays
  rw [hr] at hskip
  obtain ⟨r', hr', hleft⟩ := ok_of_map hskip
  have hrest : r'.tokens = rest := hleft.trans ((hspares.skipSemicolon hm (opensStatement_iff.mp hopens).2.1).2 hending)
  refine ⟨skipTo e.retractExport (f r'), ?_, he.retract (f r') ((hf r').trans hrest) hround⟩
  rw [hstep, hr']
  rfl

/-- The tokens begin with a type alias without a semicolon, with or without an `export` before it, and `rest` is a statement behind it that
does not go on with its type. -/
inductive OpenAlias : List Token → List Token → Prop where
  | intro {exported parameters : List Sym} {name : String} {ending : TypeEnding} {ms : List Lexeme} {m : Lexeme} {ts rest : List Token}
      (hexported : exported = [] ∨ exported = [typedWord "export"])
      (hw : Written (exported ++ typedWord "type" :: typedWord name :: (parameters ++ typedMark "=" :: ms.map typed)) ts rest)
      (hparameters : Arguments parameters) (h : PlainType ending ms) (hending : ending ≠ .cut) (hm : (lexemes rest).head? = some m)
      (hopens : opensStatement m = true) (hstays : ending.eats m = false) : OpenAlias ts rest

theorem OpenAlias.suffix (h : OpenAlias ts rest) : rest <:+ ts := by
  obtain ⟨_, hw⟩ := h
  exact hw.suffix

/-- Where a statement may stand, nothing of such a type alias is kept. -/
theorem goes_openAliasStatement (h : OpenAlias ts rest) (hv : v.rest = ts) (hclear : Clear [";", "\x7b", "\x7d"] v) :
    Goes v (v.before rest) := by
  obtain ⟨hexported, hw, hparameters, h, hending, hm, hopens, hstays⟩ := h
  obtain ⟨us, hexport, halias⟩ := (hv ▸ hw).split
  refine goes_of_retracts hexported hexport (headIn_of_words halias rfl rfl) hclear fun w hrest hbefore hround => ?_
  exact goes_openAlias hparameters h hending (hrest ▸ halias) hm hopens hstays hbefore hround

end View

/-- Erasing statements of the core language and type aliases without a semicolon succeeds, and what is kept is the code of the statements,
where none of the statements goes on with the type of an alias before it. -/
theorem erase_openAlias {content : String} {code : List Lexeme} (hlex : tokenize content.toList 0 .first = .ok ts)
    (h : ProgramWith OpenAlias ts code) :
    ∃ kept specifiers, erase content = .ok ⟨String.join (kept.map (·.text)), specifiers⟩ ∧ kept.Sublist ts ∧ lexemes kept = code :=
  erase_of_programWith hlex h fun _ _ h => ⟨h.suffix, fun _ hv hclear => goes_openAliasStatement h hv hclear⟩

end Skipping

end ScriptLoader.Syntax
