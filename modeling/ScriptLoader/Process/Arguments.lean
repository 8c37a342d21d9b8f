import ScriptLoader.Process.Raw

/-!
# Arguments of a program

Most programs read their arguments in the same way: letters behind a minus sign, words behind two, each perhaps with a value, and all
else operands. Words may be cut short as long as they stay clear. What is read is the options in the order in which they are given, each
by its letter and with its value, up to the first one that is at fault.
-/

namespace ScriptLoader

/-- An option by its word: it means the same as the letter. -/
structure OptionWord where
  name : String
  hasValue : Bool
  letter : Char
  deriving DecidableEq, Repr

/-- The options of a program: the letters, each with whether it has a value, and the words. In a program where `ordered` holds, options
stand before all operands. -/
structure OptionTable where
  letters : List (Char × Bool)
  words : List OptionWord
  ordered : Bool
  deriving DecidableEq, Repr

/-- What is wrong with an argument. -/
inductive ArgumentFault where
  | unknownLetter (letter : Char)
  | letterWithoutValue (letter : Char)
  | unknownWord (text : Raw)
  | unclearWord (text : Raw) (names : List String)
  | wordWithoutValue (name : String)
  | wordWithValue (name : String)
  deriving DecidableEq, Repr

/-- The report of a fault. -/
def ArgumentFault.message : ArgumentFault → Raw
  | unknownLetter c => "invalid option -- '" ++ [c, '\'']
  | letterWithoutValue c => "option requires an argument -- '" ++ [c, '\'']
  | unknownWord text => "unrecognized option '" ++ text ++ ['\'']
  | unclearWord text names =>
    "option '" ++ text ++ "' is ambiguous; possibilities:" ++ names.flatMap fun n => (" '--" ++ n ++ "'").toList
  | wordWithoutValue name => "option '--" ++ name ++ "' requires an argument"
  | wordWithValue name => "option '--" ++ name ++ "' doesn't allow an argument"

/-- What arguments ask for: the options by their letters, each with its value, which is empty where there is none, and the operands;
and what is wrong behind these options. -/
structure Arguments where
  given : List (Char × Raw)
  operands : List Raw
  fault : Option ArgumentFault
  deriving DecidableEq, Repr

namespace Arguments

/-- No options. -/
def ofOperands (operands : List Raw) : Arguments := ⟨[], operands, none⟩

/-- Nothing but a fault. -/
def ofFault (f : ArgumentFault) : Arguments := ⟨[], [], some f⟩

/-- The arguments with options in front. -/
def giving (a : Arguments) (options : List (Char × Raw)) : Arguments := { a with given := options ++ a.given }

/-- The arguments with an operand in front. -/
def adding (a : Arguments) (operand : Raw) : Arguments := { a with operands := operand :: a.operands }

/-- The last value that is given to one of these letters, with the letter. -/
def last? (a : Arguments) (letters : List Char) : Option (Char × Raw) :=
  (a.given.reverse.find? fun g => letters.contains g.1)

/-- The letter is given. -/
def has (a : Arguments) (letter : Char) : Bool := a.given.any (·.1 = letter)

end Arguments

namespace OptionTable

/-- The option that is meant by a word behind two minus signs, perhaps with a value behind an equals sign. -/
def word? (t : OptionTable) (text : Raw) : Except ArgumentFault (OptionWord × Option Raw) :=
  let name := text.takeWhile (· ≠ '=')
  let value := (text.drop name.length).tail?
  match t.words.find? (·.name.toList = name) with
  | some w => .ok (w, value)
  | none =>
    match t.words.filter fun w => name.isPrefixOf w.name.toList with
    | [] => .error (.unknownWord ("--" ++ text))
    | w :: ws =>
      if ws.all fun v => v.letter = w.letter && v.hasValue = w.hasValue then .ok (w, value)
      else .error (.unclearWord ("--" ++ text) ((w :: ws).map (·.name)))

/-- The options that letters behind one minus sign ask for; behind them a fault, or the letter that still needs a value. -/
def readLetters (t : OptionTable) : Raw → List (Char × Raw) × Except ArgumentFault (Option Char)
  | [] => ([], .ok none)
  | c :: cs =>
    match t.letters.lookup c with
    | none => ([], .error (.unknownLetter c))
    | some true => if cs.isEmpty then ([], .ok (some c)) else ([(c, cs)], .ok none)
    | some false =>
      let (given, outcome) := t.readLetters cs
      ((c, []) :: given, outcome)

/-- Reads arguments. -/
def read (t : OptionTable) : List Raw → Arguments
  | [] => .ofOperands []
  | a :: args =>
    match a with
    | ['-', '-'] => .ofOperands args
    | '-' :: '-' :: text =>
      match t.word? text with
      | .error f => .ofFault f
      | .ok (w, value) =>
        match w.hasValue, value with
        | false, none => (t.read args).giving [(w.letter, [])]
        | false, some _ => .ofFault (.wordWithValue w.name)
        | true, some v => (t.read args).giving [(w.letter, v)]
        | true, none =>
          match args with
          | v :: args => (t.read args).giving [(w.letter, v)]
          | [] => .ofFault (.wordWithoutValue w.name)
    | '-' :: c :: cs =>
      match t.readLetters (c :: cs) with
      | (given, .error f) => (Arguments.ofFault f).giving given
      | (given, .ok none) => (t.read args).giving given
      | (given, .ok (some letter)) =>
        match args with
        | v :: args => (t.read args).giving (given ++ [(letter, v)])
        | [] => (Arguments.ofFault (.letterWithoutValue letter)).giving given
    | _ => if t.ordered then .ofOperands (a :: args) else (t.read args).adding a

end OptionTable

end ScriptLoader
