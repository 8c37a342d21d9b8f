import ScriptLoader.Syntax.TypeSyntax

/-!
# Skipping a declaration

Declarations that exist for the type checker alone are skipped as a whole: interfaces, type aliases, ambient declarations, and
imports and exports of types.
-/

namespace ScriptLoader.Syntax

/-- Skips to the end of a statement: past a semicolon or a block in curly brackets, or up to a line break, outside the `depth`
round and square brackets that are open. -/
def skipStatement (depth : Int) : (ts : List Token) → Except Refusal (Rest ts)
  | [] => .ok (Rest.whole [])
  | t :: ts =>
    let goOn (depth : Int) : Except Refusal (Rest (t :: ts)) := (skipStatement depth ts).map (·.widen (List.suffix_cons t ts))
    if depth = 0 && t.text = ";" then .ok ⟨ts, List.suffix_cons t ts⟩
    else if depth = 0 && t.text = "\x7b" then (skipBracket .curly (t :: ts)).map Tail.toRest
    else if depth = 0 && t.breaksLine then .ok (Rest.whole (t :: ts))
    else if t.text = "(" || t.text = "[" then goOn (depth + 1)
    else if t.text = ")" || t.text = "]" then goOn (depth - 1)
    else goOn depth

/-- Skips a semicolon, if that is the next token that is no trivia. -/
def skipSemicolon (ts : List Token) : Rest ts :=
  let mark := (Rest.whole ts).significant
  if headIn mark.tokens [";"] then mark.tail else Rest.whole ts

/-- Skips an import or export of types: past its module name, past the closing curly bracket that no `from` follows, or past a
semicolon, with `depth` curly brackets open. -/
def skipModuleStatement (depth : Int) : (ts : List Token) → Rest ts
  | [] => Rest.whole []
  | t :: ts =>
    let goOn (depth : Int) : Rest (t :: ts) := (skipModuleStatement depth ts).widen (List.suffix_cons t ts)
    let stop : Rest (t :: ts) := (skipSemicolon ts).widen (List.suffix_cons t ts)
    if t.text = "\x7b" then goOn (depth + 1)
    else if t.text = "\x7d" then
      if depth - 1 = 0 && !headIn (significant ts) ["from"] then stop else goOn (depth - 1)
    else if depth = 0 && t.kind = .string then stop
    else if depth = 0 && t.text = ";" then ⟨ts, List.suffix_cons t ts⟩
    else goOn depth

/-- Skips an interface, from its name or any later token on, past its body. -/
def skipInterface (ts : List Token) : Except Refusal (Rest ts) :=
  match ts with
  | [] => refuseAtEnd (.unexpectedEnd "interface declaration")
  | t :: us =>
    if t.text = "<" then
      match skipAngle (t :: us) with
      | .ok r => (skipInterface r.tokens).map (·.widen r.suffix)
      | .error e => .error e
    else if t.text = "\x7b" then (skipBracket .curly (t :: us)).map Tail.toRest
    else (skipInterface us).map (·.widen (List.suffix_cons t us))
termination_by ts.length
decreasing_by
  · exact r.shorter
  · exact Nat.lt_succ_self _

/-- Skips the type that a type alias stands for, and a semicolon behind it, from the equals sign on. -/
def skipAliased (ts : List Token) : Except Refusal (Rest ts) :=
  match ts with
  | [] => refuseAt (.unexpectedEnd "type alias") []
  | t :: us =>
    if t.text = "=" then
      (skipType us).map fun r => ((skipSemicolon r.tokens).widen r.suffix).widen (List.suffix_cons t us)
    else refuseAt (.unexpectedEnd "type alias") (t :: us)

/-- Skips a type alias from what follows its name on. -/
def skipTypeAlias (ts : List Token) : Except Refusal (Rest ts) :=
  let start := (Rest.whole ts).significant
  if headIn start.tokens ["<"] then
    match skipAngle start.tokens with
    | .ok r => (skipAliased r.significant.tokens).map fun r' => r'.widen (r.significant.suffix.trans start.suffix)
    | .error e => .error e
  else (skipAliased start.tokens).map (·.widen start.suffix)

end ScriptLoader.Syntax
