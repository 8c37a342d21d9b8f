import ScriptLoader.Process.Raw

/-!
# Arithmetic

Expressions over whole numbers of 64 bits, which wrap around: numbers in decimal, octal and hexadecimal digits, names, the operators of C,
and assignments. Where a condition decides, only one side is evaluated. A text that is no expression is evaluated up to where it goes wrong.
-/

namespace ScriptLoader.Shell

/-- A number that wraps around at 64 bits. -/
def wrap (n : Int) : Int := Int.bmod n 18446744073709551616

/-- The largest number. -/
def maxNumber : Nat := 9223372036854775807

/-- Two numbers of 64 bits are combined bit by bit. -/
def bitwise (f : Nat → Nat → Nat) (a b : Int) : Int :=
  wrap (f (a % 18446744073709551616).toNat (b % 18446744073709551616).toNat)

/-- An operator with two sides. -/
inductive BinaryOperator where
  | multiply
  | divide
  | remainder
  | add
  | subtract
  | shiftLeft
  | shiftRight
  | less
  | lessOrEqual
  | greater
  | greaterOrEqual
  | equal
  | notEqual
  | bitAnd
  | bitXor
  | bitOr
  deriving DecidableEq, Repr

namespace BinaryOperator

/-- How tight an operator binds; smaller numbers bind tighter. -/
def precedence : BinaryOperator → Nat
  | multiply | divide | remainder => 0
  | add | subtract => 1
  | shiftLeft | shiftRight => 2
  | less | lessOrEqual | greater | greaterOrEqual => 3
  | equal | notEqual => 4
  | bitAnd => 5
  | bitXor => 6
  | bitOr => 7

/-- The value of an operator; there is none for a division by zero. -/
def apply (op : BinaryOperator) (a b : Int) : Option Int :=
  let truth (p : Bool) : Option Int := some (if p then 1 else 0)
  match op with
  | multiply => some (wrap (a * b))
  | divide => if b = 0 then none else some (wrap (Int.tdiv a b))
  | remainder => if b = 0 then none else some (wrap (Int.tmod a b))
  | add => some (wrap (a + b))
  | subtract => some (wrap (a - b))
  | shiftLeft => some (wrap (a * Nat.pow 2 (b % 64).toNat))
  | shiftRight => some (Int.fdiv a (Nat.pow 2 (b % 64).toNat))
  | less => truth (a < b)
  | lessOrEqual => truth (a ≤ b)
  | greater => truth (b < a)
  | greaterOrEqual => truth (b ≤ a)
  | equal => truth (a = b)
  | notEqual => truth (a ≠ b)
  | bitAnd => some (bitwise Nat.land a b)
  | bitXor => some (bitwise Nat.xor a b)
  | bitOr => some (bitwise Nat.lor a b)

end BinaryOperator

/-- Why an expression has no value. -/
inductive ArithmeticFault where
  | expectingEnd
  | expectingPrimary
  | expectingParenthesis
  | expectingColon
  | divisionByZero
  | illegalNumber (text : Raw)
  deriving DecidableEq, Repr

/-- The report of a fault in the expression that is written as `text`. -/
def ArithmeticFault.message (text : Raw) (f : ArithmeticFault) : Raw :=
  let report (s : String) : Raw := "arithmetic expression: " ++ s.toList ++ ": \x22" ++ text ++ "\x22"
  match f with
  | expectingEnd => report "expecting EOF"
  | expectingPrimary => report "expecting primary"
  | expectingParenthesis => report "expecting ')'"
  | expectingColon => report "expecting ':'"
  | divisionByZero => report "division by zero"
  | illegalNumber t => "Illegal number: " ++ t

/-- An expression. A `spoiled` one is followed by what cannot stand there, and nothing behind it is read. -/
inductive Expression where
  | number (n : Int)
  | name (x : Raw)
  | negate (e : Expression)
  | complement (e : Expression)
  | not (e : Expression)
  | binary (op : BinaryOperator) (a b : Expression)
  | both (a b : Expression)
  | either (a b : Expression)
  | conditional (condition yes no : Expression)
  | assign (op : Option BinaryOperator) (x : Raw) (e : Expression)
  | spoiled (e : Expression) (f : ArithmeticFault)

/-- A token of an expression. -/
inductive ArithmeticToken where
  | number (n : Int)
  | name (x : Raw)
  | binary (op : BinaryOperator)
  | assign (op : Option BinaryOperator)
  | both
  | either
  | not
  | complement
  | question
  | colon
  | openParenthesis
  | closeParenthesis
  | unknown
  deriving DecidableEq, Repr

namespace ArithmeticToken

/-- The value of a digit in any base up to sixteen. -/
def digitValue (c : Char) : Nat :=
  if c.isDigit then c.toNat - 48 else if 'a' ≤ c && c ≤ 'f' then c.toNat - 87 else if 'A' ≤ c && c ≤ 'F' then c.toNat - 55 else 16

/-- The value of the digits at the front in a base, and what follows them. -/
def digits (base : Nat) (cs : Raw) : Nat × Raw :=
  let ds := cs.takeWhile fun c => digitValue c < base
  (ds.foldl (fun n c => base * n + digitValue c) 0, cs.drop ds.length)

/-- The number at the front, which begins with a digit, and what follows it; large ones are cut down to the limit. -/
def numberAt (limit : Nat) (cs : Raw) : Nat × Raw :=
  let (n, rest) := match cs with
    | '0' :: x :: c :: rest =>
      if (x = 'x' || x = 'X') && digitValue c < 16 then digits 16 (c :: rest) else digits 8 cs
    | '0' :: _ => digits 8 cs
    | _ => digits 10 cs
  (min limit n, rest)

/-- The marks, longer ones before those that they begin with. -/
def marks : List (String × ArithmeticToken) :=
  [(">>=", assign (some .shiftRight)), ("<<=", assign (some .shiftLeft)), (">>", binary .shiftRight), (">=", binary .greaterOrEqual),
   (">", binary .greater), ("<<", binary .shiftLeft), ("<=", binary .lessOrEqual), ("<", binary .less), ("||", either),
   ("|=", assign (some .bitOr)), ("|", binary .bitOr), ("&&", both), ("&=", assign (some .bitAnd)), ("&", binary .bitAnd),
   ("!=", binary .notEqual), ("!", not), ("==", binary .equal), ("=", assign none), ("(", openParenthesis), (")", closeParenthesis),
   ("*=", assign (some .multiply)), ("*", binary .multiply), ("/=", assign (some .divide)), ("/", binary .divide),
   ("%=", assign (some .remainder)), ("%", binary .remainder), ("+=", assign (some .add)), ("+", binary .add),
   ("-=", assign (some .subtract)), ("-", binary .subtract), ("^=", assign (some .bitXor)), ("^", binary .bitXor),
   ("~", complement), ("?", question), (":", colon)]

/-- The tokens of an expression up to a character that begins none; `n` bounds their number. -/
def tokensWithin : Nat → Raw → List ArithmeticToken
  | 0, _ => []
  | n + 1, cs =>
    match cs.dropWhile fun c => c = ' ' || c = '\t' || c = '\n' with
    | [] => []
    | c :: cs =>
      if c.isDigit then
        let (m, rest) := numberAt maxNumber (c :: cs)
        number m :: tokensWithin n rest
      else if Raw.isNameStart c then
        let x := (c :: cs).takeWhile Raw.isNameChar
        name x :: tokensWithin n ((c :: cs).drop x.length)
      else
        match marks.find? fun e => e.1.toList.isPrefixOf (c :: cs) with
        | some (text, t) => t :: tokensWithin n ((c :: cs).drop text.length)
        | none => [unknown]

/-- The tokens of an expression. -/
def tokens (cs : Raw) : List ArithmeticToken := tokensWithin (cs.length + 1) cs

end ArithmeticToken

namespace Expression

/-- What is read: an assignment, a condition, or what binds tighter; operators up to a precedence, or what stands between operators. -/
inductive Goal where
  | assignment
  | condition
  | disjunction
  | conjunction
  | binary (below : Nat)
  | binaryRest (below : Nat) (a : Expression)
  | primary

/-- What was read: an expression, and the tokens behind it, unless it is spoiled. -/
abbrev Result := Expression × Option (List ArithmeticToken)

/-- What was read is no expression. -/
def Result.none (f : ArithmeticFault) : Result := (.spoiled (.number 0) f, Option.none)

/-- Goes on behind what was read. -/
def Result.and (r : Result) (next : Expression → List ArithmeticToken → Result) : Result :=
  match r with
  | (e, some ts) => next e ts
  | (e, Option.none) => (e, Option.none)

/-- What was read as a part of a larger expression. -/
def Result.inside (r : Result) (f : Expression → Expression) : Result := (f r.1, r.2)

/-- Reads an expression; `n` bounds how deep it is nested. -/
def parseWithin : Nat → Goal → List ArithmeticToken → Result
  | 0, _, _ => .none .expectingPrimary
  | n + 1, goal, ts =>
    match goal with
    | .assignment =>
      match ts with
      | .name x :: .assign op :: ts => (parseWithin n .assignment ts).inside (.assign op x)
      | ts => parseWithin n .condition ts
    | .condition =>
      (parseWithin n .disjunction ts).and fun a ts =>
        match ts with
        | .question :: ts =>
          match parseWithin n .assignment ts with
          | (b, some (.colon :: ts)) => (parseWithin n .condition ts).inside (.conditional a b)
          | (b, some _) => (.conditional a b (.spoiled (.number 0) .expectingColon), Option.none)
          | (b, Option.none) => (.conditional a b (.number 0), Option.none)
        | ts => (a, some ts)
    | .disjunction =>
      (parseWithin n .conjunction ts).and fun a ts =>
        match ts with
        | .either :: ts => (parseWithin n .disjunction ts).inside (.either a)
        | ts => (a, some ts)
    | .conjunction =>
      (parseWithin n (.binary 8) ts).and fun a ts =>
        match ts with
        | .both :: ts => (parseWithin n .conjunction ts).inside (.both a)
        | ts => (a, some ts)
    | .binary below => (parseWithin n .primary ts).and fun a ts => parseWithin n (.binaryRest below a) ts
    | .binaryRest below a =>
      match ts with
      | .binary op :: rest =>
        if op.precedence < below then
          match (parseWithin n (.binary op.precedence) rest).inside (.binary op a) with
          | (e, some ts) => parseWithin n (.binaryRest below e) ts
          | r => r
        else (a, some ts)
      | ts => (a, some ts)
    | .primary =>
      match ts with
      | .number m :: ts => (.number m, some ts)
      | .name x :: ts => (.name x, some ts)
      | .openParenthesis :: ts =>
        (parseWithin n .assignment ts).and fun a ts =>
          match ts with
          | .closeParenthesis :: ts => (a, some ts)
          | _ => (.spoiled a .expectingParenthesis, Option.none)
      | .binary .add :: ts => parseWithin n .primary ts
      | .binary .subtract :: ts => (parseWithin n .primary ts).inside .negate
      | .not :: ts => (parseWithin n .primary ts).inside .not
      | .complement :: ts => (parseWithin n .primary ts).inside .complement
      | _ => .none .expectingPrimary

/-- The expression that a text is. -/
def parse (cs : Raw) : Expression :=
  let ts := ArithmeticToken.tokens cs
  match parseWithin (8 * ts.length + 8) .assignment ts with
  | (e, some (_ :: _)) => .spoiled e .expectingEnd
  | (e, _) => e

/-- What spoils an expression. -/
def fault? : Expression → Option ArithmeticFault
  | number _ | name _ => Option.none
  | negate e | complement e | not e | assign _ _ e => e.fault?
  | binary _ a b | both a b | either a b => a.fault?.or b.fault?
  | conditional a b c => (a.fault?.or b.fault?).or c.fault?
  | spoiled e f => e.fault?.or (some f)

/-- What an evaluation reads and writes: the values of names from outside, and those that it has assigned, the last one first. -/
structure Scope where
  look : Raw → Option Raw
  assigned : List (Raw × Int)

/-- The number that a text is, with blanks around it; an empty one is zero. -/
def numberOf? (text : Raw) : Option Int :=
  let cs := text.dropWhile Raw.isSpace
  let negative := cs.head? = some '-'
  let ds := if negative || cs.head? = some '+' then cs.drop 1 else cs
  if (ds.head?).any Char.isDigit then
    let (n, rest) := ArithmeticToken.numberAt (if negative then maxNumber + 1 else maxNumber) ds
    if rest.all Raw.isSpace then some (if negative then -(n : Int) else n) else none
  else if text.all Raw.isSpace then some 0
  else none

/-- The value of a name. -/
def Scope.value (s : Scope) (x : Raw) : Except ArithmeticFault Int :=
  match s.assigned.lookup x with
  | some n => .ok n
  | none =>
    let text := (s.look x).getD []
    match numberOf? text with
    | some n => .ok n
    | none => .error (.illegalNumber text)

/-- The value of an operator. -/
def operate (op : BinaryOperator) (a b : Int) : Except ArithmeticFault Int :=
  match op.apply a b with
  | some n => .ok n
  | none => .error .divisionByZero

/-- One for what is true, and zero for what is not. -/
def truth (p : Bool) : Int := if p then 1 else 0

/-- What is evaluated before a fault is done. -/
abbrev Evaluation := ExceptT ArithmeticFault (StateM Scope)

/-- Passes over an expression that has no say in the value; it must be one all the same. -/
def pass (e : Expression) : Evaluation Unit :=
  match e.fault? with
  | some f => throw f
  | Option.none => return ()

/-- The value of an expression. -/
def evaluate : Expression → Evaluation Int
  | number n => return n
  | name x => do MonadExcept.ofExcept ((← get).value x)
  | negate e => do return wrap (-(← evaluate e))
  | complement e => do return wrap (-(← evaluate e) - 1)
  | not e => do return truth ((← evaluate e) = 0)
  | binary op a b => do
    let m ← evaluate a
    let n ← evaluate b
    MonadExcept.ofExcept (operate op m n)
  | both a b => do
    if (← evaluate a) = 0 then
      pass b
      return 0
    return truth ((← evaluate b) ≠ 0)
  | either a b => do
    if (← evaluate a) ≠ 0 then
      pass b
      return 1
    return truth ((← evaluate b) ≠ 0)
  | conditional condition yes no => do
    if (← evaluate condition) ≠ 0 then
      let n ← evaluate yes
      pass no
      return n
    pass yes
    evaluate no
  | assign op x e => do
    let n ← evaluate e
    let n ← match op with
      | none => pure n
      | some op => do MonadExcept.ofExcept (operate op (← MonadExcept.ofExcept ((← get).value x)) n)
    modify fun s => { s with assigned := (x, n) :: s.assigned }
    return n
  | spoiled e f => do
    let _ ← evaluate e
    throw f

end Expression

/-- The value of the expression that a text is, and what it assigns, the first assignment first. -/
def arithmetic (look : Raw → Option Raw) (text : Raw) : Except ArithmeticFault Int × List (Raw × Int) :=
  let (result, scope) := (Expression.parse text).evaluate.run.run ⟨look, []⟩
  (result, scope.assigned.reverse)

end ScriptLoader.Shell
