import ScriptLoader.Syntax.Bracket

/-!
# Skipping a type

A type is skipped without building a tree for it. A type is one operand or several joined by `|`, `&` or a condition; an operand
is a name with arguments, a literal, something in brackets, or a function type, perhaps with a keyword before it and array
suffixes behind. `skipType` answers what follows the type.
-/

namespace ScriptLoader.Syntax

/-- Words that may stand before an operand. -/
def typePrefixes : List String := ["keyof", "typeof", "unique", "readonly", "infer", "new", "asserts"]

/-- Array suffixes and indexed access: `T[]`, `T['key']`. Trivia behind the last one stay. -/
def skipSuffixes (ts : List Token) : Except Refusal (Rest ts) :=
  if headIn (significant ts) ["["] then
    match skipBracket .square (significant ts) with
    | .ok r => (skipSuffixes r.tokens).map fun r' => (r.andThen r').toRest.widen (significant_suffix ts)
    | .error e => .error e
  else .ok (Rest.whole ts)
termination_by ts.length
decreasing_by exact Nat.lt_of_lt_of_le r.shorter (significant_suffix ts).length_le

/-- The rest of a dotted name whose first part is already taken. -/
def skipDotted (ts : List Token) : Rest ts :=
  match h : significant ts with
  | dot :: us =>
    if dot.text = "." then
      match h' : significant us with
      | name :: vs =>
        if name.kind = .identifier then
          (skipDotted vs).widen (((List.suffix_cons name vs).trans (h' ▸ significant_suffix us)).trans
            ((List.suffix_cons dot us).trans (h ▸ significant_suffix ts)))
        else Rest.whole ts
      | [] => Rest.whole ts
    else Rest.whole ts
  | [] => Rest.whole ts
termination_by ts.length
decreasing_by
  have h₁ := (significant_suffix ts).length_le
  have h₂ := (significant_suffix us).length_le
  rw [h, List.length_cons] at h₁
  rw [h', List.length_cons] at h₂
  omega

/-- Where the first operand of a type begins: trivia are passed over, and one leading `|` or `&`. -/
def firstOperand (ts : List Token) : Rest ts :=
  let start := (Rest.whole ts).significant
  if headIn start.tokens ["|", "&"] then start.tail.significant else start

/-- What follows the first token, without trivia at the front. -/
def afterToken (t : Token) (ts : List Token) : Tail (t :: ts) := (Tail.ofCons t ts).significant

mutual

/-- Skips one type, and the trivia before it. -/
def skipType (ts : List Token) : Except Refusal (Tail ts) :=
  match skipOperand (firstOperand ts).tokens with
  | .error e => .error e
  | .ok r => (skipMore r.tokens).map fun r' => (r.andThen r').widen (firstOperand ts).suffix
termination_by (ts.length, 2)
decreasing_by
  · have h := (firstOperand ts).length_le
    simp only [Prod.lex_def]
    omega
  · have h := (firstOperand ts).length_le
    have h' := r.shorter
    simp only [Prod.lex_def]
    omega

/-- Skips the operands that are joined to the one already taken. -/
def skipMore (ts : List Token) : Except Refusal (Rest ts) :=
  match h : significant ts with
  | [] => .ok (Rest.whole ts)
  | t :: us =>
    have hts : (t :: us) <:+ ts := h ▸ significant_suffix ts
    if t.text = "|" || t.text = "&" then
      match skipOperand (afterToken t us).tokens with
      | .error e => .error e
      | .ok r => (skipMore r.tokens).map fun r' => ((r.andThen r').widen ((afterToken t us).suffix.trans hts)).toRest
    else if t.text = "extends" && t.kind = .identifier then
      -- a condition: `C extends E ? X : Y`
      match skipOperand (afterToken t us).tokens with
      | .error e => .error e
      | .ok r =>
        match h' : significant r.tokens with
        | [] => .ok (r.widen ((afterToken t us).suffix.trans hts)).toRest
        | q :: vs =>
          if q.text = "?" then
            match skipType vs with
            | .error e => .error e
            | .ok r₁ =>
              match h₁ : significant r₁.tokens with
              | [] => refuseAt (.unexpectedEnd "conditional type") []
              | c :: ws =>
                if c.text = ":" then
                  match skipType ws with
                  | .error e => .error e
                  | .ok r₂ =>
                    (skipMore r₂.tokens).map fun r₃ =>
                      (r₂.andThen r₃).toRest.widen (((List.suffix_cons c ws).trans (h₁ ▸ significant_suffix r₁.tokens)).trans
                        (r₁.suffix.trans (((List.suffix_cons q vs).trans (h' ▸ significant_suffix r.tokens)).trans
                          (r.suffix.trans ((afterToken t us).suffix.trans hts)))))
                else refuseAt (.unexpectedEnd "conditional type") (c :: ws)
          else .ok (r.widen ((afterToken t us).suffix.trans hts)).toRest
    else .ok (Rest.whole ts)
termination_by (ts.length, 0)
decreasing_by
  all_goals have ha := (afterToken t us).shorter
  all_goals have hl := hts.length_le
  all_goals try have hr := r.shorter
  all_goals try have hq := (significant_suffix r.tokens).length_le
  all_goals try rw [h', List.length_cons] at hq
  all_goals try have hr₁ := r₁.shorter
  all_goals try have hc := (significant_suffix r₁.tokens).length_le
  all_goals try rw [h₁, List.length_cons] at hc
  all_goals try have hr₂ := r₂.shorter
  all_goals simp only [Prod.lex_def]; omega

/-- Skips one operand, which begins at the first token. -/
def skipOperand (ts : List Token) : Except Refusal (Tail ts) :=
  match ts with
  | [] => refuseAt (.unexpectedEnd "type annotation") []
  | t :: us =>
    let next := significant us
    if t.kind = .identifier && typePrefixes.contains t.text &&
        (headKind next = some .identifier || headKind next = some .string ||
          headIn next ["(", "[", "\x7b", "<"]) then
      (skipOperand next).map (·.widen ((significant_suffix us).trans (List.suffix_cons t us)))
    else if t.text = "<" then
      -- a function type with type parameters: `<T>(x: T) => T`
      match skipAngle (t :: us) with
      | .error e => .error e
      | .ok r => (skipSimple r.significant.tokens).map (·.widen r.significant.suffix)
    else skipSimple (t :: us)
termination_by (ts.length, 1)
decreasing_by
  · have := (significant_suffix us).length_le
    simp only [Prod.lex_def, List.length_cons]
    omega
  · have := r.significant.shorter
    simp only [Prod.lex_def]
    omega
  · exact Prod.Lex.right _ (by decide)

/-- Skips an operand without a word or type parameters before it. -/
def skipSimple (ts : List Token) : Except Refusal (Tail ts) :=
  match ts with
  | [] => refuseAt (.unexpectedEnd "type annotation") []
  | t :: us =>
    if t.text = "(" then
      match skipBracket .round (t :: us) with
      | .error e => .error e
      | .ok r =>
        match h : significant r.tokens with
        | [] => (skipSuffixes r.tokens).map r.andThen
        | arrow :: vs =>
          if arrow.text = "=>" then
            (skipType vs).map (·.widen (((List.suffix_cons arrow vs).trans (h ▸ significant_suffix r.tokens)).trans r.suffix))
          else (skipSuffixes r.tokens).map r.andThen
    else if t.text = "\x7b" then
      match skipBracket .curly (t :: us) with
      | .error e => .error e
      | .ok r => (skipSuffixes r.tokens).map r.andThen
    else if t.text = "[" then
      match skipBracket .square (t :: us) with
      | .error e => .error e
      | .ok r => (skipSuffixes r.tokens).map r.andThen
    else if t.isLiteral then (skipSuffixes us).map Rest.afterHead
    else if t.text = "-" && headKind (significant us) = some .number then
      .ok (Rest.whole us).significant.tail.afterHead
    else if t.kind = .identifier then
      let named : Tail (t :: us) := (skipDotted us).afterHead
      let applied : Except Refusal (Tail (t :: us)) :=
        if headIn (significant named.tokens) ["<"] then
          (skipAngle (significant named.tokens)).map (·.widen ((significant_suffix named.tokens).trans named.suffix))
        else .ok named
      match applied with
      | .error e => .error e
      | .ok r =>
        match h : significant r.tokens with
        | [] => (skipSuffixes r.tokens).map r.andThen
        | word :: vs =>
          if word.text = "is" && word.kind = .identifier then
            -- a type predicate: `x is T`
            (skipType vs).map (·.widen (((List.suffix_cons word vs).trans (h ▸ significant_suffix r.tokens)).trans r.suffix))
          else (skipSuffixes r.tokens).map r.andThen
    else refuseAt (.unexpectedEnd "type annotation") (t :: us)
termination_by (ts.length, 0)
decreasing_by
  all_goals
    have hr := r.shorter
    have hs := (significant_suffix r.tokens).length_le
    rw [h, List.length_cons] at hs
    simp only [Prod.lex_def]
    omega

end

end ScriptLoader.Syntax
