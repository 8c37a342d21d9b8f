import ScriptLoader.Shell.Builtin.Flow
import ScriptLoader.Shell.Builtin.Output
import ScriptLoader.Shell.Builtin.Places
import ScriptLoader.Shell.Builtin.Variables
import ScriptLoader.Shell.Engine

/-!
# The builtin commands

A special command is found before all others, keeps what is assigned in front of it, and takes the shell with it when it fails. Some
commands take assignments as words.
-/

namespace ScriptLoader.Shell

/-- A builtin command by name. -/
structure BuiltinEntry where
  name : String
  special : Bool
  assigns : Bool
  run : Engine → Purpose → Builtin

namespace BuiltinEntry

open Builtin Act

/-- A command that has its status at once. -/
def plain (name : String) (special : Bool) (b : Builtin) : BuiltinEntry := ⟨name, special, false, fun _ _ => b⟩

/-- A command whose words may be assignments. -/
def assigning (name : String) (b : Builtin) : BuiltinEntry := ⟨name, true, true, fun _ _ => b⟩

/-- The command `eval`. -/
def evalCommand (e : Engine) (p : Purpose) : Builtin := fun words => do
  if words.isEmpty then return (0, [])
  return (← e.script p.tested (Raw.join [' '] words), [])

/-- The file of a script that is read into the shell. -/
def scriptText (name : Raw) : Act Raw := do
  let s ← get
  match if name.contains '/' then some name else s.findFile? s.path name with
  | none => fail (name ++ ": not found")
  | some path =>
    match ← routine (Routine.openNamed .read path) with
    | .error f => fail (openingReport true path f)
    | .ok id =>
      match ← routine (Routine.readAll id) with
      | .ok text => return text
      | .error _ => return []

/-- The command `.`. -/
def dot (e : Engine) : Builtin := fun words => do
  let (_, words) ← options [] words
  match words with
  | [] => return (0, [])
  | name :: _ =>
    let text ← scriptText name
    modify fun s => { s with command := some name }
    let status ← e.script false text
    modify fun s =>
      match s.skip with
      | .function _ => { s with skip := .nothing }
      | _ => s
    return (status, [])

/-- The command `exec`. -/
def exec (e : Engine) : Builtin := fun words => do
  match words with
  | [] => return (0, [])
  | name :: _ =>
    let s ← get
    match s.find s.path name with
    | .ok path => e.become path words
    | .error f =>
      let (message, status) := refusalReport name f
      modify fun s => { s with status }
      warn message
      throw .closed

/-- The commands that need no others. -/
def simple : List BuiltinEntry :=
  [plain ":" true (constant 0), plain "true" false (constant 0), plain "false" false (constant 1), plain "echo" false echo,
   plain "printf" false printf, plain "test" false test, plain "[" false bracket, plain "break" true (leavingLoops .loops),
   plain "continue" true (leavingLoops .round), plain "return" true returnCommand, plain "exit" true Builtin.exit,
   plain "shift" true shift, plain "set" true setCommand, plain "unset" true unset, plain "trap" true trap, plain "times" true times,
   assigning "export" exportCommand, assigning "readonly" readonly, assigning "local" localCommand, plain "read" false Builtin.read,
   plain "getopts" false getopts, plain "cd" false cd, plain "chdir" false cd, plain "pwd" false pwd, plain "kill" false kill,
   plain "wait" false wait, plain "jobs" false jobsCommand, plain "hash" false hash, plain "umask" false umask,
   plain "ulimit" false ulimit, plain "alias" false (constant 0), plain "unalias" false (constant 0)]

/-- The commands that take other commands, and whether they are special. -/
def outer : List (String × Bool) := [(".", true), ("eval", true), ("exec", true), ("command", false), ("type", false)]

/-- Whether a name is built in, and for good. -/
def isSpecial? (name : Raw) : Option Bool :=
  match simple.find? (·.name = String.ofList name) with
  | some b => some b.special
  | none => outer.lookup (String.ofList name)

/-- The command `command` with options that ask what a name means. -/
def commandQuery : Builtin := fun words => do
  let (given, words) ← options "pvV".toList words
  match words, given.reverse.find? (·.1 ≠ 'p') with
  | name :: _, some (letter, _) => describe isSpecial? (letter = 'V') name
  | _, _ => return (0, [])

/-- All builtin commands. -/
def all : List BuiltinEntry :=
  ⟨".", true, false, fun e _ => dot e⟩ :: ⟨"eval", true, false, evalCommand⟩ :: ⟨"exec", true, false, fun e _ => exec e⟩ ::
    plain "command" false commandQuery :: plain "type" false (typeCommand isSpecial?) :: simple

/-- The builtin command of a name. -/
def find? (name : Raw) : Option BuiltinEntry := all.find? (·.name = String.ofList name)

/-- What is special is told alike by both tables. -/
theorem isSpecial?_eq : ∀ b ∈ all, isSpecial? b.name.toList = some b.special := by decide +kernel

end BuiltinEntry

end ScriptLoader.Shell
