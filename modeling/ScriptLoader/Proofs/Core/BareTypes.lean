import ScriptLoader.Proofs.Core.Bare

/-!
# Skipping without the layout

Types and declarations are skipped alike with and without their layout (`skipType_bare` and the others). For each reader it is said
first what it leaves, in terms of the lists of tokens alone, and then that this does not depend on the layout.
-/

namespace ScriptLoader.Syntax

/-! ## Types -/

/-- Behind the first bracket of suffixes there may be more. -/
theorem left_skipSuffixes (ts : List Token) : left (skipSuffixes ts) =
    if headIn (significant ts) ["["] then (leftBehind (skipBracket .square (significant ts))).bind fun r => left (skipSuffixes r)
    else .ok ts := by
  rw [skipSuffixes]
  split
  · cases skipBracket .square (significant ts) with
    | error f => rfl
    | ok r => exact outcome_map _ _ _
  · rfl

theorem skipSuffixes_bare (ts : List Token) : left (skipSuffixes (bares ts)) = bareOutcome (left (skipSuffixes ts)) := by
  induction hn : ts.length using Nat.strongRecOn generalizing ts with
  | ind n ih =>
    rw [left_skipSuffixes, left_skipSuffixes ts, significant_bares, headIn_bares (by decide), skipBracket_bare, bareOutcome_ite]
    split
    · refine bareOutcome_bind fun r hr => ih r.length ?_ r rfl
      exact hn ▸ Nat.lt_of_lt_of_le (length_lt_of_leftBehind hr) (significant_suffix ts).length_le
    · rfl

/-- A dotted name goes on where a period and a name follow. -/
theorem skipDotted_tokens (ts : List Token) : (skipDotted ts).tokens =
    match significant ts with
    | dot :: us =>
      if dot.text = "." then
        match significant us with
        | name :: vs => if name.kind = .identifier then (skipDotted vs).tokens else ts
        | [] => ts
      else ts
    | [] => ts := by
  rw [skipDotted]
  split
  · rename_i dot us hdot
    simp only [hdot]
    split
    · split
      · rename_i name vs hname
        simp only [hname]
        split <;> rfl
      · rename_i hname
        simp only [hname]
        rfl
    · rfl
  · rename_i hnil
    simp only [hnil]
    rfl

theorem skipDotted_bare (ts : List Token) : (skipDotted (bares ts)).tokens = bares (skipDotted ts).tokens := by
  induction hn : ts.length using Nat.strongRecOn generalizing ts with
  | ind n ih =>
    rw [skipDotted_tokens, skipDotted_tokens ts, significant_bares]
    cases hdot : significant ts with
    | nil => rfl
    | cons dot us =>
      simp (disch := decide) only [bares_cons, Token.bare_text_eq, significant_bares]
      split
      · cases hname : significant us with
        | nil => rfl
        | cons name vs =>
          simp only [bares_cons, Token.bare_kind]
          split
          · exact ih vs.length (hn ▸ Nat.lt_trans (length_lt_of_significant hname) (length_lt_of_significant hdot)) vs rfl
          · rfl
      · rfl

theorem firstOperand_tokens (ts : List Token) : (firstOperand ts).tokens =
    if headIn (significant ts) ["|", "&"] then significant (significant ts).tail else significant ts := by
  rw [firstOperand]
  split <;> rename_i h
  · exact (if_pos h).symm
  · exact (if_neg h).symm

theorem firstOperand_bare (ts : List Token) : (firstOperand (bares ts)).tokens = bares (firstOperand ts).tokens := by
  rw [firstOperand_tokens, firstOperand_tokens, significant_bares, headIn_bares (by decide), bares_tail, significant_bares]
  split <;> rfl

/-- What is left behind an operand that a type may go on behind: behind `isWord` a type, or else suffixes. -/
def behindOperand (isWord : Token → Prop) [DecidablePred isWord] (ts : List Token) : Except Fault (List Token) :=
  match significant ts with
  | [] => left (skipSuffixes ts)
  | word :: us => if isWord word then leftBehind (skipType us) else left (skipSuffixes ts)

/-- What is left behind a name with its arguments. -/
def behindName (us : List Token) : Except Fault (List Token) :=
  if headIn (significant (skipDotted us).tokens) ["<"] then leftBehind (skipAngle (significant (skipDotted us).tokens))
  else .ok (skipDotted us).tokens

section Equations

variable {t : Token} {us : List Token}

theorem outcome_andThen {ts : List Token} (r : Tail ts) :
    leftBehind ((skipSuffixes r.tokens).map r.andThen) = left (skipSuffixes r.tokens) := outcome_map _ _ _

theorem left_skipType (ts : List Token) :
    leftBehind (skipType ts) = (leftBehind (skipOperand (firstOperand ts).tokens)).bind fun r => left (skipMore r) := by
  rw [skipType]
  cases skipOperand (firstOperand ts).tokens with
  | error f => rfl
  | ok r => exact outcome_map _ _ _

theorem left_skipMore (ts : List Token) : left (skipMore ts) =
    match significant ts with
    | [] => .ok ts
    | t :: us =>
      if t.text = "|" || t.text = "&" then (leftBehind (skipOperand (significant us))).bind fun r => left (skipMore r)
      else if t.text = "extends" && t.kind = .identifier then
        (leftBehind (skipOperand (significant us))).bind fun r =>
          match significant r with
          | [] => .ok r
          | q :: vs =>
            if q.text = "?" then
              (leftBehind (skipType vs)).bind fun r₁ =>
                match significant r₁ with
                | [] => .error (.unexpectedEnd "conditional type")
                | c :: ws =>
                  if c.text = ":" then (leftBehind (skipType ws)).bind fun r₂ => left (skipMore r₂)
                  else .error (.unexpectedEnd "conditional type")
            else .ok r
      else .ok ts := by
  rw [skipMore]
  split
  · rename_i hnil
    simp only [hnil]
    rfl
  rename_i t us hcons
  simp only [hcons]
  have hoperand : skipOperand (afterToken t us).tokens = skipOperand (significant us) := rfl
  split
  · rw [hoperand]
    cases skipOperand (significant us) with
    | error f => rfl
    | ok r => exact outcome_map _ _ _
  split
  · rw [hoperand]
    cases skipOperand (significant us) with
    | error f => rfl
    | ok r =>
      show left _ = match significant r.tokens with
        | [] => _
        | q :: vs => _
      simp only
      split
      · rename_i hnil
        simp only [hnil]
        rfl
      rename_i q vs hq
      simp only [hq]
      split
      · cases skipType vs with
        | error f => rfl
        | ok r₁ =>
          show left _ = match significant r₁.tokens with
            | [] => _
            | c :: ws => _
          simp only
          split
          · rename_i hnil
            simp only [hnil]
            rfl
          rename_i c ws hc
          simp only [hc]
          split
          · cases skipType ws with
            | error f => rfl
            | ok r₂ => exact outcome_map _ _ _
          · rfl
      · rfl
  · rfl

theorem left_skipOperand : leftBehind (skipOperand (t :: us)) =
    if t.kind = .identifier && typePrefixes.contains t.text &&
        (headKind (significant us) = some .identifier || headKind (significant us) = some .string ||
          headIn (significant us) ["(", "[", "\x7b", "<"]) then leftBehind (skipOperand (significant us))
    else if t.text = "<" then (leftBehind (skipAngle (t :: us))).bind fun r => leftBehind (skipSimple (significant r))
    else leftBehind (skipSimple (t :: us)) := by
  rw [skipOperand]
  split
  · exact outcome_map _ _ _
  split
  · cases skipAngle (t :: us) with
    | error f => rfl
    | ok r => exact outcome_map _ _ _
  · rfl

theorem left_match (isWord : Token → Prop) [DecidablePred isWord] {ts : List Token} (r : Tail ts)
    (f : ∀ word us, significant r.tokens = word :: us → Tail us → Tail ts)
    (hf : ∀ word us h r', (f word us h r').tokens = r'.tokens) :
    leftBehind (match h : significant r.tokens with
      | [] => (skipSuffixes r.tokens).map r.andThen
      | word :: us => if isWord word then (skipType us).map (f word us h) else (skipSuffixes r.tokens).map r.andThen) =
      behindOperand isWord r.tokens := by
  rw [behindOperand]
  split
  · rename_i hnil
    simp only [hnil]
    exact outcome_andThen r
  rename_i word us hword
  simp only [hword]
  split
  · rw [leftBehind, outcome_map, funext (hf word us hword)]
  · exact outcome_andThen r

theorem left_skipSimple : leftBehind (skipSimple (t :: us)) =
    if t.text = "(" then (leftBehind (skipBracket .round (t :: us))).bind (behindOperand fun arrow => arrow.text = "=>")
    else if t.text = "\x7b" then (leftBehind (skipBracket .curly (t :: us))).bind fun r => left (skipSuffixes r)
    else if t.text = "[" then (leftBehind (skipBracket .square (t :: us))).bind fun r => left (skipSuffixes r)
    else if t.isLiteral then left (skipSuffixes us)
    else if t.text = "-" && headKind (significant us) = some .number then .ok (significant us).tail
    else if t.kind = .identifier then (behindName us).bind (behindOperand fun word => word.text = "is" && word.kind = .identifier)
    else .error (.unexpectedEnd "type annotation") := by
  rw [skipSimple]
  split
  · cases skipBracket .round (t :: us) with
    | error f => rfl
    | ok r =>
      exact left_match _ r _ fun _ _ _ _ => rfl
  split
  · cases skipBracket .curly (t :: us) with
    | error f => rfl
    | ok r => exact outcome_andThen r
  split
  · cases skipBracket .square (t :: us) with
    | error f => rfl
    | ok r => exact outcome_andThen r
  split
  · exact outcome_map _ _ _
  split
  · rfl
  split
  · simp only
    have happlied {applied : Except Refusal (Tail (t :: us))}
        (h : (if headIn (significant (skipDotted us).tokens) ["<"] then
          (skipAngle (significant (skipDotted us).tokens)).map (·.widen ((significant_suffix (skipDotted us).tokens).trans
            (skipDotted us).afterHead.suffix)) else .ok (skipDotted us).afterHead) = applied) :
        leftBehind applied = behindName us := by
      rw [← h, behindName]
      split
      · exact outcome_map _ _ _
      · rfl
    split <;> rename_i hr
    · rw [← happlied hr]
      rfl
    · rw [← happlied hr]
      exact left_match _ _ _ fun _ _ _ _ => rfl
  · rfl

end Equations


theorem length_le_of_behindName {us rest : List Token} (h : behindName us = .ok rest) : rest.length ≤ us.length := by
  have hdotted := (skipDotted us).length_le
  rw [behindName] at h
  split at h
  · have hsig := (significant_suffix (skipDotted us).tokens).length_le
    have hlt := length_lt_of_leftBehind h
    omega
  · exact Except.ok.inj h ▸ hdotted

/-- So it is for all readers of types. -/
structure TypesBare (ts : List Token) : Prop where
  type : leftBehind (skipType (bares ts)) = bareOutcome (leftBehind (skipType ts))
  more : left (skipMore (bares ts)) = bareOutcome (left (skipMore ts))
  operand : leftBehind (skipOperand (bares ts)) = bareOutcome (leftBehind (skipOperand ts))
  simple : leftBehind (skipSimple (bares ts)) = bareOutcome (leftBehind (skipSimple ts))

section Types

variable {ts : List Token} (ih : ∀ us, us.length < ts.length → TypesBare us)

include ih

theorem behindOperand_bare {isWord : Token → Prop} [DecidablePred isWord] (hword : ∀ t : Token, isWord t.bare = isWord t)
    {us : List Token} (hlt : us.length < ts.length) :
    behindOperand isWord (bares us) = bareOutcome (behindOperand isWord us) := by
  rw [behindOperand, behindOperand, significant_bares]
  cases hsig : significant us with
  | nil => exact skipSuffixes_bare us
  | cons word vs =>
    simp only [bares_cons, hword]
    rw [bareOutcome_ite]
    split
    · exact (ih vs (Nat.lt_trans (length_lt_of_significant hsig) hlt)).type
    · exact skipSuffixes_bare us

omit ih in
theorem behindName_bare (us : List Token) : behindName (bares us) = bareOutcome (behindName us) := by
  rw [behindName, behindName, skipDotted_bare, significant_bares, headIn_bares (by decide), skipAngle_bare, bareOutcome_ite]
  rfl

theorem skipSimple_bare_of_shorter : leftBehind (skipSimple (bares ts)) = bareOutcome (leftBehind (skipSimple ts)) := by
  cases ts with
  | nil =>
    rw [bares_nil, skipSimple]
    rfl
  | cons t us =>
    have hgroup (b : Bracket) : ((leftBehind (skipBracket b (bares (t :: us)))).bind fun r => left (skipSuffixes r)) =
        bareOutcome ((leftBehind (skipBracket b (t :: us))).bind fun r => left (skipSuffixes r)) := by
      rw [skipBracket_bare]
      exact bareOutcome_bind fun r _ => skipSuffixes_bare r
    rw [bares_cons, left_skipSimple, left_skipSimple, ← bares_cons]
    simp (disch := decide) only [bareOutcome_ite, Token.bare_text_eq, Token.bare_kind, Token.bare_isLiteral, significant_bares,
      headKind_bares]
    split
    · rw [skipBracket_bare]
      exact bareOutcome_bind fun r hr => behindOperand_bare ih (fun t => Token.bare_text_eq (by decide)) (length_lt_of_leftBehind hr)
    split
    · exact hgroup .curly
    split
    · exact hgroup .square
    split
    · exact skipSuffixes_bare us
    split
    · exact congrArg Except.ok (bares_tail _)
    split
    · rw [behindName_bare]
      refine bareOutcome_bind fun r hr => behindOperand_bare ih (fun t => ?_) (Nat.lt_succ_of_le (length_le_of_behindName hr))
      simp (disch := decide) only [Token.bare_text_eq, Token.bare_kind]
    · rfl

theorem skipOperand_bare_of_shorter : leftBehind (skipOperand (bares ts)) = bareOutcome (leftBehind (skipOperand ts)) := by
  cases ts with
  | nil =>
    rw [bares_nil, skipOperand]
    rfl
  | cons t us =>
    have hnext := (significant_suffix us).length_le
    rw [bares_cons, left_skipOperand, left_skipOperand, ← bares_cons]
    simp (disch := decide) only [bareOutcome_ite, Token.bare_text_eq, Token.contains_bare_text, Token.bare_kind, significant_bares,
      headKind_bares, headIn_bares]
    split
    · rw [significant_bares]
      exact (ih _ (Nat.lt_succ_of_le hnext)).operand
    split
    · rw [skipAngle_bare]
      refine bareOutcome_bind fun r hr => ?_
      rw [significant_bares]
      exact (ih _ (Nat.lt_of_le_of_lt (significant_suffix r).length_le (length_lt_of_leftBehind hr))).simple
    · exact skipSimple_bare_of_shorter ih

theorem skipType_bare_of_shorter : leftBehind (skipType (bares ts)) = bareOutcome (leftBehind (skipType ts)) := by
  have hfirst := (firstOperand ts).length_le
  have hoperand := @skipOperand_bare_of_shorter (firstOperand ts).tokens fun us hlt => ih us (Nat.lt_of_lt_of_le hlt hfirst)
  rw [left_skipType, left_skipType ts, firstOperand_bare, hoperand]
  exact bareOutcome_bind fun r hr => (ih r (Nat.lt_of_lt_of_le (length_lt_of_leftBehind hr) hfirst)).more

theorem skipMore_bare_of_shorter : left (skipMore (bares ts)) = bareOutcome (left (skipMore ts)) := by
  rw [left_skipMore, left_skipMore ts, significant_bares]
  cases hsig : significant ts with
  | nil => rfl
  | cons t us =>
    have hnext : (significant us).length < ts.length :=
      Nat.lt_of_le_of_lt (significant_suffix us).length_le (length_lt_of_significant hsig)
    simp (disch := decide) only [bares_cons, bareOutcome_ite, Token.bare_text_eq, Token.bare_kind]
    have hoperand := (ih (significant us) hnext).operand
    split
    · rw [significant_bares, hoperand]
      exact bareOutcome_bind fun r hr => (ih r (Nat.lt_trans (length_lt_of_leftBehind hr) hnext)).more
    split
    · rw [significant_bares, hoperand]
      refine bareOutcome_bind fun r hr => ?_
      have hlt := Nat.lt_trans (length_lt_of_leftBehind hr) hnext
      rw [significant_bares]
      cases hq : significant r with
      | nil => rfl
      | cons q vs =>
        have hlt₁ := Nat.lt_trans (length_lt_of_significant hq) hlt
        simp (disch := decide) only [bares_cons, bareOutcome_ite, Token.bare_text_eq]
        split
        · rw [(ih vs hlt₁).type]
          refine bareOutcome_bind fun r₁ hr₁ => ?_
          have hlt₂ := Nat.lt_trans (length_lt_of_leftBehind hr₁) hlt₁
          rw [significant_bares]
          cases hc : significant r₁ with
          | nil => rfl
          | cons c ws =>
            have hlt₃ := Nat.lt_trans (length_lt_of_significant hc) hlt₂
            simp (disch := decide) only [bares_cons, bareOutcome_ite, Token.bare_text_eq]
            split
            · rw [(ih ws hlt₃).type]
              exact bareOutcome_bind fun r₂ hr₂ => (ih r₂ (Nat.lt_trans (length_lt_of_leftBehind hr₂) hlt₃)).more
            · rfl
        · rfl
    · rfl

end Types

theorem typesBare (ts : List Token) : TypesBare ts := by
  induction hn : ts.length using Nat.strongRecOn generalizing ts with
  | ind n ih =>
    have hless (us : List Token) (hlt : us.length < ts.length) : TypesBare us := ih us.length (hn ▸ hlt) us rfl
    exact ⟨skipType_bare_of_shorter hless, skipMore_bare_of_shorter hless, skipOperand_bare_of_shorter hless,
      skipSimple_bare_of_shorter hless⟩

theorem skipType_bare (ts : List Token) : leftBehind (skipType (bares ts)) = bareOutcome (leftBehind (skipType ts)) :=
  (typesBare ts).type

/-! ## Declarations -/

theorem left_skipStatement (depth : Int) (t : Token) (ts : List Token) : left (skipStatement depth (t :: ts)) =
    if depth = 0 && t.text = ";" then .ok ts
    else if depth = 0 && t.text = "\x7b" then leftBehind (skipBracket .curly (t :: ts))
    else if depth = 0 && t.breaksLine then .ok (t :: ts)
    else if t.text = "(" || t.text = "[" then left (skipStatement (depth + 1) ts)
    else if t.text = ")" || t.text = "]" then left (skipStatement (depth - 1) ts)
    else left (skipStatement depth ts) := by
  conv => lhs; unfold skipStatement
  simp only
  split
  · rfl
  split
  · exact outcome_map _ _ _
  split
  · rfl
  split
  · exact outcome_map _ _ _
  split
  · exact outcome_map _ _ _
  · exact outcome_map _ _ _

theorem skipStatement_bare (depth : Int) (ts : List Token) :
    left (skipStatement depth (bares ts)) = bareOutcome (left (skipStatement depth ts)) := by
  induction ts generalizing depth with
  | nil => rfl
  | cons t ts ih =>
    rw [bares_cons, left_skipStatement, left_skipStatement, ← bares_cons, skipBracket_bare]
    simp (disch := decide) only [bareOutcome_ite, ih, Token.bare_breaksLine, Token.bare_text_eq, bareOutcome_ok]

theorem skipSemicolon_tokens (ts : List Token) :
    (skipSemicolon ts).tokens = if headIn (significant ts) [";"] then (significant ts).tail else ts := by
  rw [skipSemicolon]
  split <;> rename_i h
  · exact (if_pos h).symm
  · exact (if_neg h).symm

theorem skipSemicolon_bare (ts : List Token) : (skipSemicolon (bares ts)).tokens = bares (skipSemicolon ts).tokens := by
  rw [skipSemicolon_tokens, skipSemicolon_tokens, significant_bares, headIn_bares (by decide), bares_tail]
  split <;> rfl

theorem skipModuleStatement_tokens (depth : Int) (t : Token) (ts : List Token) : (skipModuleStatement depth (t :: ts)).tokens =
    if t.text = "\x7b" then (skipModuleStatement (depth + 1) ts).tokens
    else if t.text = "\x7d" then
      if depth - 1 = 0 && !headIn (significant ts) ["from"] then (skipSemicolon ts).tokens
      else (skipModuleStatement (depth - 1) ts).tokens
    else if depth = 0 && t.kind = .string then (skipSemicolon ts).tokens
    else if depth = 0 && t.text = ";" then ts
    else (skipModuleStatement depth ts).tokens := by
  conv => lhs; unfold skipModuleStatement
  simp only
  split
  · rfl
  split
  · split <;> rfl
  split
  · rfl
  split <;> rfl

theorem skipModuleStatement_bare (depth : Int) (ts : List Token) :
    (skipModuleStatement depth (bares ts)).tokens = bares (skipModuleStatement depth ts).tokens := by
  induction ts generalizing depth with
  | nil => rfl
  | cons t ts ih =>
    rw [bares_cons, skipModuleStatement_tokens, skipModuleStatement_tokens]
    simp (disch := decide) only [ih, Token.bare_text_eq, Token.bare_kind, significant_bares, headIn_bares, skipSemicolon_bare,
      apply_ite bares]

/-- An interface ends with its body; type parameters before that are passed over. -/
theorem left_skipInterface (t : Token) (us : List Token) : left (skipInterface (t :: us)) =
    if t.text = "<" then (leftBehind (skipAngle (t :: us))).bind fun r => left (skipInterface r)
    else if t.text = "\x7b" then leftBehind (skipBracket .curly (t :: us))
    else left (skipInterface us) := by
  rw [skipInterface]
  split
  · cases skipAngle (t :: us) with
    | error f => rfl
    | ok r => exact outcome_map _ _ _
  split
  · exact outcome_map _ _ _
  · exact outcome_map _ _ _

theorem skipInterface_bare (ts : List Token) : left (skipInterface (bares ts)) = bareOutcome (left (skipInterface ts)) := by
  induction hn : ts.length using Nat.strongRecOn generalizing ts with
  | ind n ih =>
    cases ts with
    | nil =>
      rw [bares_nil, skipInterface]
      rfl
    | cons t us =>
      rw [bares_cons, left_skipInterface, left_skipInterface, ← bares_cons, skipAngle_bare, skipBracket_bare]
      simp (disch := decide) only [bareOutcome_ite, Token.bare_text_eq]
      split
      · exact bareOutcome_bind fun r hr => ih r.length (hn ▸ length_lt_of_leftBehind hr) r rfl
      split
      · rfl
      · exact ih us.length (hn ▸ Nat.lt_succ_self _) us rfl

theorem left_skipAliased (t : Token) (us : List Token) : left (skipAliased (t :: us)) =
    if t.text = "=" then (leftBehind (skipType us)).map fun r => (skipSemicolon r).tokens else .error (.unexpectedEnd "type alias") := by
  rw [skipAliased]
  split
  · cases skipType us <;> rfl
  · rfl

theorem skipAliased_bare (ts : List Token) : left (skipAliased (bares ts)) = bareOutcome (left (skipAliased ts)) := by
  cases ts with
  | nil => rfl
  | cons t us =>
    rw [bares_cons, left_skipAliased, left_skipAliased, skipType_bare]
    simp (disch := decide) only [bareOutcome_ite, Token.bare_text_eq]
    split
    · cases leftBehind (skipType us) with
      | error f => rfl
      | ok r => exact congrArg Except.ok (skipSemicolon_bare r)
    · rfl

theorem left_skipTypeAlias (ts : List Token) : left (skipTypeAlias ts) =
    if headIn (significant ts) ["<"] then (leftBehind (skipAngle (significant ts))).bind fun r => left (skipAliased (significant r))
    else left (skipAliased (significant ts)) := by
  rw [skipTypeAlias, show significant ts = (Rest.whole ts).significant.tokens from rfl]
  split
  · cases skipAngle (Rest.whole ts).significant.tokens with
    | error f => rfl
    | ok r => exact outcome_map _ _ _
  · exact outcome_map _ _ _

theorem skipTypeAlias_bare (ts : List Token) : left (skipTypeAlias (bares ts)) = bareOutcome (left (skipTypeAlias ts)) := by
  rw [left_skipTypeAlias, left_skipTypeAlias ts, significant_bares, headIn_bares (by decide), skipAngle_bare, skipAliased_bare,
    bareOutcome_ite]
  split
  · refine bareOutcome_bind fun r _ => ?_
    rw [significant_bares]
    exact skipAliased_bare _
  · rfl

namespace Eraser

theorem left_skipImplemented (ts : List Token) : leftBehind (skipImplemented ts) =
    (leftBehind (skipType ts)).bind fun r =>
      match significant r with
      | comma :: us => if comma.text = "," then leftBehind (skipImplemented us) else .ok r
      | [] => .ok r := by
  rw [skipImplemented]
  cases skipType ts with
  | error f => rfl
  | ok r =>
    show leftBehind _ = match significant r.tokens with
      | comma :: us => _
      | [] => _
    simp only
    split
    · rename_i comma us hcomma
      simp only [hcomma]
      split
      · exact outcome_map _ _ _
      · rfl
    · rename_i hnil
      simp only [hnil]
      rfl

theorem skipImplemented_bare (ts : List Token) :
    leftBehind (skipImplemented (bares ts)) = bareOutcome (leftBehind (skipImplemented ts)) := by
  induction hn : ts.length using Nat.strongRecOn generalizing ts with
  | ind n ih =>
    rw [left_skipImplemented, left_skipImplemented ts, skipType_bare]
    refine bareOutcome_bind fun r hr => ?_
    have hlt := length_lt_of_leftBehind hr
    rw [significant_bares]
    cases hcomma : significant r with
    | nil => rfl
    | cons comma us =>
      simp (disch := decide) only [bares_cons, bareOutcome_ite, Token.bare_text_eq]
      split
      · exact ih us.length (hn ▸ Nat.lt_trans (length_lt_of_significant hcomma) hlt) us rfl
      · rfl

theorem left_skipReceiver (ts : List Token) : leftBehind (skipReceiver ts) =
    (leftBehind (skipType (significant ts).tail)).map fun r =>
      if headIn (significant r) [","] then significant (significant r).tail else r := by
  rw [skipReceiver, show (significant ts).tail = (Rest.whole ts).significant.tail.tokens from rfl]
  simp only
  cases skipType (Rest.whole ts).significant.tail.tokens with
  | error f => rfl
  | ok r =>
    refine congrArg Except.ok ?_
    simp only
    split <;> rename_i hcomma
    · exact (if_pos hcomma).symm
    · exact (if_neg hcomma).symm

theorem skipReceiver_bare (ts : List Token) : leftBehind (skipReceiver (bares ts)) = bareOutcome (leftBehind (skipReceiver ts)) := by
  rw [left_skipReceiver, left_skipReceiver ts, significant_bares, bares_tail, skipType_bare]
  cases leftBehind (skipType (significant ts).tail) with
  | error f => rfl
  | ok r =>
    refine congrArg Except.ok ?_
    simp only
    rw [significant_bares, headIn_bares (by decide), bares_tail, significant_bares]
    split <;> rfl

theorem left_skipExportClause (ts : List Token) : left (skipExportClause ts) =
    if headIn (significant ts) ["\x7b"] then leftBehind (skipBracket .curly (significant ts))
    else if headIn (significant (significant ts).tail) ["as"] then .ok (significant (significant (significant ts).tail).tail).tail
    else .ok (significant ts).tail := by
  rw [skipExportClause, show significant ts = (Rest.whole ts).significant.tokens from rfl]
  simp only
  split
  · exact outcome_map _ _ _
  · split <;> rename_i has
    · exact (if_pos has).symm
    · exact (if_neg has).symm

theorem skipExportClause_bare (ts : List Token) : left (skipExportClause (bares ts)) = bareOutcome (left (skipExportClause ts)) := by
  rw [left_skipExportClause, left_skipExportClause, significant_bares, skipBracket_bare]
  simp (disch := decide) only [bares_tail, significant_bares, headIn_bares, bareOutcome_ite, bareOutcome_ok]

end Eraser

end ScriptLoader.Syntax
