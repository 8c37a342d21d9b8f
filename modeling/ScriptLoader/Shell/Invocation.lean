import ScriptLoader.Shell.Evaluate

/-!
# Shells as programs

A shell is called with options, and with a script: as a word, as a file, or as its input. What is nested in a script is evaluated by an
engine of one level less.
-/

namespace ScriptLoader.Shell

namespace State

/-- A shell for a process, before it has read its options. -/
def start (p : Process) (name : Raw) : State :=
  let here := Builtin.pathOf (p.cwd.map Raw.ofString)
  let own : List (Raw × Variable) :=
    [("PS1", "# "), ("PS2", "> "), ("PS4", "+ "), ("OPTIND", "1"), ("IFS", " \t\n"), ("PATH", String.ofList standardPath)].map fun (x, v) =>
      (Raw.ofString x, ⟨some (Raw.ofString v), false, false⟩)
  let given := (p.environment.filter fun e => Raw.isName e.1 && e.1 ≠ "IFS".toList && e.1 ≠ "OPTIND".toList).map fun (x, v) =>
    (x, (⟨some v, true, false⟩ : Variable))
  let added : List (Raw × Variable) :=
    [("PWD".toList, ⟨some here, true, false⟩),
     ("PPID".toList, ⟨some (Raw.ofNat p.caller), false, false⟩)]
  let others := (given ++ own.filter fun e => (given.lookup e.1).isNone).filter fun e => (added.lookup e.1).isNone
  { process := p, name, parameters := .ofWords [], bindings := added ++ others, hidden := [], functions := [], options := [], status := 0,
    substituted := 0, kept := none, skip := .nothing, levels := 0, loops := 0, calls := 0, line := 0, command := none, traps := [],
    pending := [], found := [], jobs := [], lastJob := none, documents := [], nextDocument := 0, number := p.number, here, lineRead := 1 }

end State

namespace Engine

open Act Builtin

/-- What is read from words of the command line: the words behind, whether the first of them is a script, and the options that have been
turned off so far. All others count as on until the words are read. -/
structure CallWords where
  rest : List Raw
  script : Bool
  off : List Char

/-- Sets the options of a word of the command line. -/
def callWord (on : Bool) (w : CallWords) : Raw → Act CallWords
  | [] => return w
  | 'o' :: cs => do
    let out ← turnNamed (fun _ c => !w.off.contains c) w.rest.head? on
    let _ ← routine (Routine.write Routine.output out)
    let named := (w.rest.head?.bind fun name => ShellOption.table.lookup (String.ofList name)).toList
    let off := w.off.removeAll named
    callWord on { w with rest := w.rest.drop 1, off := if on then off else named ++ off } cs
  | c :: cs => do
    if c ≠ 'c' && c ≠ 'l' then turnLetter c on
    callWord on { w with script := w.script || c = 'c', off := w.off.removeAll [c] ++ (if on then [] else [c]) } cs

/-- Sets the options of a command line; `n` bounds the number of words with options. -/
def callOptions : Nat → CallWords → Act CallWords
  | 0, w => return w
  | n + 1, w => do
    match w.rest with
    | (sign :: cs) :: rest =>
      if sign ≠ '-' && sign ≠ '+' then return w
      if sign = '-' && (cs.isEmpty || cs = ['-']) then return { w with rest }
      callOptions n (← callWord (sign = '-') { w with rest } cs)
    | _ => return w

/-- Gives the shell a name and parameters, if there are words for them. -/
def nameAs (words : List Raw) : Act Unit := modify fun s =>
  match words with
  | [] => s
  | name :: params => { s with name, parameters := .ofWords params }

/-- Evaluates the script that is the input. -/
def runInput (e : Engine) : Act Nat := do
  let id ← routine (Routine.opened Routine.input)
  match ← routine (Routine.readAll id) with
  | .ok text => e.runText false text
  | .error _ => return 0

/-- Evaluates the script that is a file. -/
def runFile (e : Engine) (words : List Raw) : Act Nat := do
  let name := words.head?.getD []
  match ← routine (Routine.openNamed .read name) with
  | .error f => fail (openingReport true name f)
  | .ok id =>
    nameAs words
    match ← routine (Routine.readAll id) with
    | .ok text => e.runText false text
    | .error _ => return 0

/-- What a shell does with the words behind its name. -/
def runWords (e : Engine) (words : List Raw) : Act Nat := do
  let ⟨rest, isScript, _⟩ ← callOptions words.length ⟨words, false, []⟩
  if rest.isEmpty && isScript then fail "-c requires an argument"
  if rest.isEmpty then modify (·.turn 's' true)
  match rest, isScript with
  | text :: rest, true =>
    nameAs rest
    let status ← e.runText false text
    if (← get).has 's' then e.runInput else return status
  | _, _ =>
    if (← get).has 's' then
      modify fun s => { s with parameters := .ofWords rest }
      e.runInput
    else
      e.runFile rest

/-- A shell as a program. -/
def invoke (e : Engine) (words : List Raw) : Routine Ending := fun p =>
  let (ending, s) := e.finish (e.runWords (words.drop 1)) (State.start p (words.head?.getD "sh".toList))
  (ending, s.process)

/-- The engine for what is nested so deep. -/
def ofDepth : Nat → Engine
  | 0 => exhausted
  | n + 1 =>
    let e := ofDepth n
    { evaluate := e.evaluateWith, script := e.runText, shell := e.invoke }

/-- How deep commands, functions and shells may be nested. -/
def maxDepth : Nat := 8000

end Engine

end ScriptLoader.Shell
