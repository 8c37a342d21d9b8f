import ScriptLoader.Syntax.Rest

/-!
# Brackets

The three kinds of bracket, skipping from an opening bracket past its partner, and recognising a list of type arguments between
angle brackets, which the lexer cannot tell from comparisons.
-/

namespace ScriptLoader.Syntax

/-- Round, square and curly brackets. -/
inductive Bracket where
  | round
  | square
  | curly
  deriving DecidableEq, Repr

namespace Bracket

def opener : Bracket → String
  | round => "("
  | square => "["
  | curly => "\x7b"

def closer : Bracket → String
  | round => ")"
  | square => "]"
  | curly => "\x7d"

/-- The bracket that this text opens. -/
def opened? (s : String) : Option Bracket :=
  if s = "(" then some round else if s = "[" then some square else if s = "\x7b" then some curly else none

/-- The bracket that this text closes. -/
def closed? (s : String) : Option Bracket :=
  if s = ")" then some round else if s = "]" then some square else if s = "\x7d" then some curly else none

@[simp] theorem opened?_opener (b : Bracket) : opened? b.opener = some b := by cases b <;> decide

@[simp] theorem closed?_closer (b : Bracket) : closed? b.closer = some b := by cases b <;> decide

end Bracket

/-- Skips past the partner of a bracket that is already open, with `inner` more brackets of the kind open inside it. Brackets of
the other kinds are not looked at. -/
def skipPast (b : Bracket) (inner : Nat) : (ts : List Token) → Except Refusal (Rest ts)
  | [] => refuseAtEnd (.unmatchedBracket b.opener)
  | t :: ts =>
    if t.text = b.opener then (skipPast b (inner + 1) ts).map (·.widen (List.suffix_cons t ts))
    else if t.text = b.closer then
      match inner with
      | 0 => .ok ⟨ts, List.suffix_cons t ts⟩
      | n + 1 => (skipPast b n ts).map (·.widen (List.suffix_cons t ts))
    else (skipPast b inner ts).map (·.widen (List.suffix_cons t ts))

/-- Skips a bracket that opens at the first token, and all up to and with its partner. -/
def skipBracket (b : Bracket) : (ts : List Token) → Except Refusal (Tail ts)
  | [] => refuseAtEnd (.unmatchedBracket b.opener)
  | _ :: ts => (skipPast b 0 ts).map Rest.afterHead

/-! ## Type arguments -/

/-- How many levels of angle brackets a token opens or closes; the lexer puts neighbouring closing ones together. -/
def angleStep (s : String) : Option Int :=
  if s = "<" then some 1 else if s = ">" then some (-1) else if s = ">>" then some (-2) else if s = ">>>" then some (-3) else none

/-- Punctuation that may stand between the angle brackets of a list of type arguments. -/
def typeArgumentPunctuation : List String :=
  [",", ".", "[", "]", "\x7b", "\x7d", "(", ")", "|", "&", "=>", ":", "?", ";", "...", "-"]

/-- A token that is neither an angle bracket nor a bracket, and may stand in a list of type arguments. -/
def mayStandInTypeArguments (t : Token) : Bool :=
  t.isTrivia || t.isLiteral || t.kind == .identifier || typeArgumentPunctuation.contains t.text

/-- Goes on with a list of type arguments at `depth` open angle brackets, with the brackets `opened` open, innermost first. Answers
what follows the angle bracket that closes the list, or nothing where the tokens do not read like type arguments. -/
def closeAngle (depth : Int) (opened : List Bracket) : (ts : List Token) → Option (Tail ts)
  | [] => none
  | t :: ts =>
    let goOn (depth : Int) (opened : List Bracket) : Option (Tail (t :: ts)) :=
      (closeAngle depth opened ts).map (·.widen (List.suffix_cons t ts))
    match angleStep t.text with
    | some step =>
      if depth + step ≤ 0 then
        if depth + step = 0 && opened.isEmpty then some (Tail.ofCons t ts) else none
      else goOn (depth + step) opened
    | none =>
      match Bracket.opened? t.text with
      | some b => goOn depth (b :: opened)
      | none =>
        match Bracket.closed? t.text with
        | some b =>
          match opened with
          | b' :: opened => if b' = b then goOn depth opened else none
          | [] => none
        | none =>
          if t.text = ";" && opened.isEmpty then none
          else if mayStandInTypeArguments t then goOn depth opened
          else none

/-- What follows the list of type arguments that the `<` at the front opens, if the tokens read like one. -/
def matchAngle (ts : List Token) : Option (Tail ts) := closeAngle 0 [] ts

/-- Skips a list of type parameters or arguments. -/
def skipAngle (ts : List Token) : Except Refusal (Tail ts) :=
  match matchAngle ts with
  | some r => .ok r
  | none => refuseAt (.unexpectedEnd "type parameters") ts

end ScriptLoader.Syntax
