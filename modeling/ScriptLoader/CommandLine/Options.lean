import ScriptLoader.Text.Digit
import ScriptLoader.Text.Fields
import ScriptLoader.Text.Lower

/-!
# Options of the command line

The arguments of a run: one input and options before and behind it. Long options may be cut short as long as they stay clear, and may
have their value behind an equals sign; short ones may be written together. Behind `--` everything is an input.
-/

namespace ScriptLoader.CommandLine

open Text

/-- What a run is asked for. -/
structure Options where
  input : Option String
  output : Option String
  cacheDirectory : Option String
  searchPath : List String
  command : Option String
  checkImports : Bool
  verbose : Bool
  deriving DecidableEq, Repr

namespace Options

/-- Nothing is asked for yet. -/
def none : Options := ⟨.none, .none, .none, [], .none, true, false⟩

end Options

/-- An option. -/
inductive Switch where
  | help
  | output
  | cacheDirectory
  | searchPath
  | command
  | noCheckImports
  | verbose
  deriving DecidableEq, Repr

namespace Switch

/-- How the options are written. -/
def spellings : List (String × Switch) :=
  [("-h", help), ("--help", help), ("-o", output), ("--output", output), ("--cache-dir", cacheDirectory),
   ("--search-path", searchPath), ("--command", command), ("--no-check-imports", noCheckImports), ("-v", verbose),
   ("--verbose", verbose)]

/-- The option has a value. -/
def hasValue : Switch → Bool
  | output | cacheDirectory | searchPath | command => true
  | help | noCheckImports | verbose => false

/-- A value that is given: `--` takes back what was given before. -/
def given? (value : String) : Option String := if value = "--" then none else some value

/-- The options with this option set to a value. -/
def set (s : Switch) (value : String) (o : Options) : Options :=
  match s with
  | output => { o with output := given? value }
  | cacheDirectory => { o with cacheDirectory := given? value }
  | searchPath => { o with searchPath := o.searchPath ++ [(given? value).getD "[]"] }
  | command => { o with command := given? value }
  | noCheckImports => { o with checkImports := false }
  | verbose => { o with verbose := true }
  | help => o

end Switch

/-- What an argument is: an input, an option, perhaps with a value in the same argument, or neither. -/
inductive Argument where
  | plain
  | switch (short : Bool) (s : Switch) (value : Option String)
  | unknown
  deriving DecidableEq, Repr

/-- Digits of any script. -/
def areDigits (cs : List Char) : Bool := cs.all isDecimalDigit

/-- An argument with a minus sign that is a number all the same; a line break may follow it. -/
def isNegativeNumber (s : String) : Bool :=
  let cs := s.toList.drop 1
  let cs := if cs.getLast? = some '\n' then cs.dropLast else cs
  match pieces '.' cs with
  | [whole] => !whole.isEmpty && areDigits whole
  | [whole, part] => areDigits whole && !part.isEmpty && areDigits part
  | _ => false

/-- The option that an argument names, cut short or together with its value. -/
def abbreviated (a : String) : Argument :=
  if startsWith a "--" then
    let (name, value) := cut (· = '=') a.toList
    let matching := Switch.spellings.filter fun e => startsWith e.1 (String.ofList name)
    match matching with
    | [e] => .switch false e.2 (if value.isEmpty then none else some (String.ofList (value.drop 1)))
    | [] => if isNegativeNumber a || a.toList.contains ' ' then .plain else .unknown
    | _ => .unknown
  else
    match Switch.spellings.lookup (String.ofList (a.toList.take 2)) with
    | some s => .switch true s (some (String.ofList (a.toList.drop 2)))
    | none => if isNegativeNumber a || a.toList.contains ' ' then .plain else .unknown

/-- What an argument is. -/
def classify (a : String) : Argument :=
  if !startsWith a "-" || a = "-" then .plain
  else
    match Switch.spellings.lookup a with
    | some s => .switch (!startsWith a "--") s none
    | none =>
      let (name, value) := cut (· = '=') a.toList
      match Switch.spellings.lookup (String.ofList name) with
      | some s => .switch (!startsWith a "--") s (some (String.ofList (value.drop 1)))
      | none => abbreviated a

/-- The letters behind a short option without a value are short options too. The result is the options and the option that still needs
a value. -/
def letters (o : Options) : List Char → Option (Options × Option Switch)
  | [] => some (o, none)
  | c :: cs =>
    match Switch.spellings.lookup (String.ofList ['-', c]) with
    | none => none
    | some s =>
      if s.hasValue then if cs.isEmpty then some (o, some s) else some (s.set (String.ofList cs) o, none)
      else letters (s.set "" o) cs

/-- The options with what an option asks for, and the option that still needs a value. -/
def applySwitch (o : Options) (short : Bool) (s : Switch) (value : Option String) : Option (Options × Option Switch) :=
  match s.hasValue, value with
  | true, some v => some (s.set v o, none)
  | true, none => some (o, some s)
  | false, none => some (s.set "" o, none)
  | false, some v => if short && !v.isEmpty then letters (s.set "" o) v.toList else none

/-- Reads arguments. `behindInput` tells that the argument before was the input. -/
def readArguments (behindInput : Bool) (o : Options) : List String → Option Options
  | [] => if o.input.isSome then some o else none
  | a :: args =>
    if a = "--" then
      match o.input, args with
      | none, [x] => some { o with input := some x }
      | some _, [] => if behindInput then some o else none
      | _, _ => none
    else
      match classify a with
      | .plain => if o.input.isSome then none else readArguments true { o with input := some a } args
      | .unknown => none
      | .switch short s value =>
        match applySwitch o short s value with
        | none => none
        | some (o, none) => readArguments false o args
        | some (o, some s) =>
          match args with
          | v :: args => if v ≠ "--" && classify v = .plain then readArguments false (s.set v o) args else none
          | [] => none

/-- The options that the arguments ask for, if they can be read. -/
def options? (args : List String) : Option Options := readArguments false Options.none args

end ScriptLoader.CommandLine
