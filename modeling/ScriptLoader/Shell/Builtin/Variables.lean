import ScriptLoader.Shell.Builtin.Options
import ScriptLoader.Shell.Fields

/-!
# Builtin commands on variables

The commands that list, mark, hide and take away variables, that set options and parameters, and that read variables from the input or from
options among parameters.
-/

namespace ScriptLoader.Shell

namespace Builtin

open Act

/-- A variable as a command that sets it. -/
def listed (front : Raw) (x : Raw) (v : Variable) : Raw :=
  let front := if front.isEmpty then [] else front ++ [' ']
  match v.value with
  | some value => front ++ x ++ ['='] ++ quoted value ++ ['\n']
  | none => front ++ x ++ ['\n']

/-- The chosen variables as commands that set them, in the order of their names. -/
def list (front : Raw) (chosen : Variable → Bool) : Act Raw := do
  let vs := ((← get).bindings.filter fun e => chosen e.2).mergeSort fun a b => a.1.isAtMost b.1
  return vs.flatMap fun (x, v) => listed front x v

/-- A command that marks variables, or lists them if its first option says so; others are not looked at. -/
def marking (name : Raw) (isMarked : Variable → Bool) (exported readOnly : Bool) : Builtin := fun words => do
  let asksForList := (words.head?.getD []).take 2 = ['-', 'p']
  let (_, words) ← if asksForList then pure ([], []) else options [] words
  if words.isEmpty then return (0, ← list name isMarked)
  words.forM fun w => do
    let (x, value) := splitAssignment w
    let s ← get
    match s.bindings.lookup x, value with
    | some v, none => set (s.put x (some { v with exported := v.exported || exported, readOnly := v.readOnly || readOnly }))
    | _, _ => setVariable x value exported readOnly
  return (0, [])

/-- The command `export`. -/
def exportCommand : Builtin := marking "export" (·.exported) true false

/-- The command `readonly`. -/
def readonly : Builtin := marking "readonly" (·.readOnly) false true

/-- Sets what a word of `local` names, and puts aside what it was. -/
def makeLocal (w : Raw) : Act Unit := do
  if w = ['-'] then
    modify fun s =>
      match s.hidden with
      | frame :: frames => { s with hidden := (.options s.options :: frame) :: frames }
      | [] => s
  else
    let (x, value) := splitAssignment w
    let old := (← get).bindings.lookup x
    match value with
    | some value => setNamed x (some value) false false
    | none => if old.isNone then setVariable x none false false
    putAside x old

/-- The command `local`. -/
def localCommand : Builtin := fun words => silent do
  if (← get).hidden.isEmpty then fail "not in a function"
  words.forM makeLocal

/-- Takes a variable away. -/
def unsetVariable (name : Raw) : Act Unit := do
  let x := name.takeWhile (· ≠ '=')
  checkName x
  let s ← get
  if (s.bindings.lookup x).any (·.readOnly) then fail (x ++ ": is read only")
  set (s.put x none)

/-- The command `unset`. -/
def unset : Builtin := fun words => silent do
  let (given, words) ← options ['v', 'f'] words
  if (given.getLast?).map (·.1) = some 'f' then
    modify fun s => { s with functions := s.functions.filter fun e => !words.contains e.1 }
  else words.forM unsetVariable

/-- Turns the option of a letter on or off. -/
def turnLetter (c : Char) (on : Bool) : Act Unit := do
  if !ShellOption.letters.contains c then fail ("Illegal option -" ++ [c])
  modify fun s => s.turn c on

/-- Turns a named option on or off, or lists all of them; `known` holds those that are on. -/
def turnNamed (known : State → Char → Bool) (name : Option Raw) (on : Bool) : Act Raw := do
  let s ← get
  match name with
  | none =>
    let row (n : String) (c : Char) : Raw :=
      let isOn := known s c
      if on then Raw.ofString n ++ List.replicate (16 - n.length) ' ' ++ (if isOn then "on\n" else "off\n").toList
      else (if isOn then "set -o " else "set +o ").toList ++ Raw.ofString n ++ ['\n']
    let rows := ShellOption.table.flatMap fun (n, c) => row n c
    return if on then "Current option settings\n".toList ++ rows else rows
  | some name =>
    match ShellOption.table.lookup (String.ofList name) with
    | some c =>
      set (s.turn c on)
      return []
    | none => fail ("Illegal option -o " ++ name)

/-- Sets the options of a word; the result is the words that are left, and the output, which is written before a fault stops it. -/
def setWord (on : Bool) (rest : List Raw) : Raw → Act (List Raw × Raw)
  | [] => return (rest, [])
  | 'o' :: cs => do
    let out ← turnNamed State.has rest.head? on
    let (rest, more) ← tryCatch (setWord on (rest.drop 1) cs) fun stop => do
      let _ ← routine (Routine.write Routine.output out)
      throw stop
    return (rest, out ++ more)
  | c :: cs => do
    turnLetter c on
    setWord on rest cs

/-- Sets options from the front of words; the result is the new parameters, if there are any, and the output. -/
def setOptions : Nat → List Raw → Act (Option (List Raw) × Raw)
  | 0, words => return (if words.isEmpty then none else some words, [])
  | n + 1, words => do
    match words with
    | [] => return (none, [])
    | ['-'] :: rest =>
      modify fun s => (s.turn 'x' false).turn 'v' false
      return (if rest.isEmpty then none else some rest, [])
    | ['-', '-'] :: rest => return (some rest, [])
    | (sign :: cs) :: rest =>
      if sign = '-' || sign = '+' then
        let (rest, out) ← setWord (sign = '-') rest cs
        let (params, more) ← setOptions n rest
        return (params, out ++ more)
      return (some words, [])
    | words => return (some words, [])

/-- The command `set`. -/
def setCommand : Builtin := fun words => do
  if words.isEmpty then return (0, ← list [] (·.value.isSome))
  let (params, out) ← setOptions words.length words
  if let some ps := params then modify fun s => { s with parameters := .ofWords ps }
  return (0, out)

/-- The command `shift`. -/
def shift : Builtin := fun words => silent do
  let n ← (words.head?.map number).getD (pure 1)
  let s ← get
  if s.parameters.words.length < n then fail "can't shift that many"
  set { s with parameters := .ofWords (s.parameters.words.drop n) }

/-- The characters of the input up to the end of the line, those behind a backslash apart, and whether there was an end; `n` bounds their
number. -/
def readLine (keepsBackslash escaped : Bool) : Nat → Act (List Stretch × Bool)
  | 0 => return ([], false)
  | n + 1 => do
    let id ← routine (Routine.opened Routine.input)
    match ← routine (Routine.readOpen id 1) with
    | .ok [c] =>
      if c = '\x00' then readLine keepsBackslash escaped n
      else if escaped then
        let (more, ended) ← readLine keepsBackslash false n
        return (if c = '\n' then more else ⟨.never, [.glyph ⟨c, true⟩]⟩ :: more, ended)
      else if c = '\\' && !keepsBackslash then
        let (more, ended) ← readLine keepsBackslash true n
        return (⟨.atSeparators, []⟩ :: more, ended)
      else if c = '\n' then return ([], true)
      else
        let (more, ended) ← readLine keepsBackslash false n
        match more with
        | ⟨.atSeparators, signs⟩ :: more => return (⟨.atSeparators, .glyph ⟨c, false⟩ :: signs⟩ :: more, ended)
        | more => return (⟨.atSeparators, [.glyph ⟨c, false⟩]⟩ :: more, ended)
    | _ => return ([], false)

/-- Gives each name its field; names without one are emptied. -/
def assignFields : List Raw → List Raw → Act Unit
  | [], _ => return ()
  | x :: xs, fields => do
    assign x (fields.head?.getD [])
    assignFields xs (fields.drop 1)

/-- The command `read`. -/
def read : Builtin := fun words => do
  let (given, names) ← options "p:r".toList words
  if names.isEmpty then fail "arg count"
  let s ← get
  let id ← routine (Routine.opened Routine.input)
  let (stretches, ended) ← readLine (given.any (·.1 = 'r')) false (s.process.machine.remaining id)
  let fields := Field.cut s.separators (some names.length) stretches
  assignFields names (fields.map fun signs => glyphText (Sign.glyphs signs))
  return (if ended then 0 else 1, [])

/-- What `getopts` finds: the letter, its value if it is known, the words that it has passed, the place in the last of them, and whether
options are over. -/
structure FoundOption where
  letter : Char
  value : Option Raw
  nextWord : Nat
  place : Option Nat
  closed : Bool

/-- The next option in words, from a place in the word before the next one. -/
def nextOption (letters : Raw) (p : Parameters) (words : List Raw) : Act FoundOption := do
  let silentFaults := letters.head? = some ':'
  let before := words[p.nextWord - 2]?.getD []
  let inWord := match p.place with
    | some place => if 1 < p.nextWord && place ≤ before.length then before.drop place else []
    | none => []
  let start? : Option (Raw × Nat × Bool) :=
    if !inWord.isEmpty then some (inWord, p.nextWord, false)
    else
      match words[p.nextWord - 1]? with
      | some ('-' :: c :: cs) => some (c :: cs, p.nextWord + 1, c = '-' && cs.isEmpty)
      | _ => none
  match start? with
  | none => return ⟨'?', none, p.nextWord, none, true⟩
  | some (_, next, true) => return ⟨'?', none, next, none, true⟩
  | some ([], next, false) => return ⟨'?', none, next, none, true⟩
  | some (c :: cs, next, false) =>
    let place := (words[next - 2]?.getD []).length - cs.length
    if c = ':' || !letters.contains c then
      if silentFaults then return ⟨'?', some [c], next, some place, false⟩
      routine (Routine.complain ("Illegal option -" ++ [c]))
      return ⟨'?', none, next, some place, false⟩
    if !takesValue letters c then return ⟨c, some [], next, some place, false⟩
    if !cs.isEmpty then return ⟨c, some cs, next, none, false⟩
    match words[next - 1]? with
    | some v => return ⟨c, some v, next + 1, none, false⟩
    | none =>
      if silentFaults then return ⟨':', some [c], next, some place, false⟩
      routine (Routine.complain ("No arg for -" ++ [c] ++ " option"))
      return ⟨'?', none, next, some place, false⟩

/-- The command `getopts`. It begins again with the first word where there are too few words, or when it could not set a variable. -/
def getopts : Builtin := fun words => do
  match words with
  | letters :: name :: rest =>
    let s ← get
    let words := if rest.isEmpty then s.parameters.words else rest
    let start := if words.length + 1 < s.parameters.nextWord then { s.parameters with nextWord := 1, place := none } else s.parameters
    let restart : Act Unit := modify fun s => { s with parameters := { s.parameters with nextWord := 1, place := none } }
    restart
    let found ← nextOption letters start words
    if !found.closed then
      match found.value with
      | some v => assign "OPTARG" v
      | none => modify fun s => s.put "OPTARG".toList none
    assign "OPTIND" (Raw.ofNat found.nextWord)
    restart
    assign name [found.letter]
    modify fun s => { s with parameters := { s.parameters with nextWord := found.nextWord, place := found.place } }
    return (if found.closed then 1 else 0, [])
  | _ => fail "Usage: getopts optstring var [arg...]"

end Builtin

end ScriptLoader.Shell
