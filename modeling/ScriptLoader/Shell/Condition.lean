import ScriptLoader.Process.Raw

/-!
# Conditions

The conditions of `test`: properties of texts and of files, comparisons, and what is made of them with `!`, `-a`, `-o` and parentheses. A
word that looks like an operator is one only where it can have its operands.
-/

namespace ScriptLoader.Shell

/-- What a condition asks about files: a property that a letter names, and whether two names lead to the same file. -/
structure FileQueries where
  has : Char → Raw → Bool
  same : Raw → Raw → Bool

/-- What is wrong with a condition. -/
inductive ConditionFault where
  | operator (text : Raw)
  | argument (operator : Raw)
  | parenthesis
  | number (text : Raw)
  deriving DecidableEq, Repr

/-- The report of a fault. -/
def ConditionFault.message : ConditionFault → Raw
  | operator text => if text.isEmpty then "unexpected operator" else text ++ ": unexpected operator"
  | argument op => op ++ ": argument expected"
  | parenthesis => "closing paren expected"
  | number text => "Illegal number: " ++ text

namespace Condition

/-- A word as an operator: with one operand, with two, or one that joins conditions. -/
inductive Operator where
  | unary (letter : Char)
  | binary (text : String)
  | not
  | both
  | either
  | opening
  | closing
  deriving DecidableEq, Repr

/-- The operator that a word looks like. -/
def operator? (word : Raw) : Option Operator :=
  match word with
  | ['!'] => some .not
  | ['('] => some .opening
  | [')'] => some .closing
  | ['-', 'a'] => some .both
  | ['-', 'o'] => some .either
  | ['-', c] => if "rwxefdcbpugkstznhLOGS".toList.contains c then some (.unary c) else none
  | _ =>
    let text := String.ofList word
    if ["=", "!=", "<", ">", "-eq", "-ne", "-ge", "-gt", "-le", "-lt", "-nt", "-ot", "-ef"].contains text then some (.binary text)
    else none

/-- The operator has two operands. -/
def Operator.isBinary : Operator → Bool
  | binary _ => true
  | _ => false

/-- What the first of the words is: none at all, an operand, or an operator. An operator with one operand is an operand itself where it
could not have one. -/
inductive Role where
  | nothing
  | operand
  | operator (op : Operator)
  deriving DecidableEq, Repr

/-- The role of the first word. -/
def role (words : List Raw) : Role :=
  match words with
  | [] => .nothing
  | w :: rest =>
    match operator? w with
    | none => .operand
    | some (.unary c) =>
      let isOperand := match rest with
        | [] => true
        | [_] => false
        | x :: _ => (operator? x).any Operator.isBinary
      if isOperand then .operand else .operator (.unary c)
    | some .opening => if rest.isEmpty then .operand else .operator .opening
    | some op => .operator op

/-- The number that a word is, with blanks around it. -/
def number? (word : Raw) : Except ConditionFault Int :=
  let cs := word.dropWhile Raw.isSpace
  let negative := cs.head? = some '-'
  let cs := if negative || cs.head? = some '+' then cs.drop 1 else cs
  let digits := cs.takeWhile Char.isDigit
  match Raw.decimal? digits with
  | some n =>
    if (cs.drop digits.length).all Raw.isSpace && n ≤ (if negative then 9223372036854775808 else 9223372036854775807) then
      .ok (if negative then -(n : Int) else n)
    else .error (.number word)
  | none => .error (.number word)

/-- The value of an operator with two operands. -/
def compare (q : FileQueries) (op : String) (a b : Raw) : Except ConditionFault Bool :=
  let numbers (p : Int → Int → Bool) : Except ConditionFault Bool := do return p (← number? a) (← number? b)
  match op with
  | "=" => .ok (a = b)
  | "!=" => .ok (a ≠ b)
  | "<" => .ok (a < b)
  | ">" => .ok (b < a)
  | "-eq" => numbers fun m n => m = n
  | "-ne" => numbers fun m n => m ≠ n
  | "-ge" => numbers fun m n => n ≤ m
  | "-gt" => numbers fun m n => n < m
  | "-le" => numbers fun m n => m ≤ n
  | "-lt" => numbers fun m n => m < n
  | "-ef" => .ok (q.same a b)
  | _ => .ok false

/-- The value of an operator with one operand. -/
def ask (q : FileQueries) (letter : Char) (operand : Raw) : Except ConditionFault Bool :=
  match letter with
  | 'z' => .ok operand.isEmpty
  | 'n' => .ok (!operand.isEmpty)
  | 't' => do
    let _ ← number? operand
    return false
  | c => .ok (q.has c operand)

/-- What is read: alternatives, what must hold together, a negation, or a single condition. -/
inductive Goal where
  | either
  | both
  | negation
  | single
  deriving DecidableEq, Repr

/-- The value of the condition at the front of the words, and the words from its last one on; `n` bounds how deep it is nested. -/
def valueWithin (q : FileQueries) : Nat → Goal → List Raw → Except ConditionFault (Bool × List Raw)
  | 0, _, words => .ok (false, words)
  | n + 1, goal, words =>
    match goal with
    | .either => do
      let (a, last) ← valueWithin q n .both words
      if role (last.drop 1) = .operator .either then
        let (b, last) ← valueWithin q n .either (last.drop 2)
        return (a || b, last)
      return (a, last)
    | .both => do
      let (a, last) ← valueWithin q n .negation words
      if role (last.drop 1) = .operator .both then
        let (b, last) ← valueWithin q n .both (last.drop 2)
        return (a && b, last)
      return (a, last)
    | .negation => do
      if role words ≠ .operator .not then valueWithin q n .single words
      else if role (words.drop 1) = .nothing then return (true, words)
      else
        let (a, last) ← valueWithin q n .negation (words.drop 1)
        return (!a, last)
    | .single =>
      match role words, words with
      | .operator .opening, _ :: inside => do
        if role inside = .operator .closing then return (false, inside)
        let (a, last) ← valueWithin q n .either inside
        if role (last.drop 1) = .operator .closing then return (a, last.drop 1)
        throw .parenthesis
      | .operator (.unary c), op :: rest =>
        match rest with
        | [] => .error (.argument op)
        | operand :: _ => (ask q c operand).map fun a => (a, rest)
      | _, a :: rest =>
        match role rest, rest with
        | .operator (.binary op), opText :: operands =>
          match operands with
          | [] => .error (.argument opText)
          | b :: _ => (compare q op a b).map fun v => (v, operands)
        | _, _ => .ok (!a.isEmpty, words)
      | _, [] => .ok (false, [])

/-- The value of words that are not read in a way of their own because of their number. -/
def valueOfAll (q : FileQueries) (words : List Raw) : Except ConditionFault Bool := do
  let (a, last) ← valueWithin q (8 * words.length + 8) .either words
  match last with
  | w :: _ :: _ => throw (.operator w)
  | _ => return a

/-- The value of words; where there are three or four, a negation or parentheses around them are seen first. -/
def value (q : FileQueries) (words : List Raw) : Except ConditionFault Bool :=
  match words with
  | [] => .ok false
  | [a, op, b] =>
    match operator? op with
    | some (.binary text) => compare q text a b
    | _ =>
      if a = ['('] && b = [')'] then valueOfAll q [op]
      else if a = ['!'] then (value q [op, b]).map (!·)
      else valueOfAll q words
  | [a, b, c, d] =>
    if a = ['('] && d = [')'] then valueOfAll q [b, c]
    else if a = ['!'] then (value q [b, c, d]).map (!·)
    else valueOfAll q words
  | _ => valueOfAll q words

end Condition

end ScriptLoader.Shell
