import ScriptLoader.Shell.Builtin.Options
import ScriptLoader.Shell.Condition
import ScriptLoader.Shell.Format
import ScriptLoader.Shell.Programs

/-!
# Builtin commands that write and test

`echo`, `printf`, `test` and those that only have a status.
-/

namespace ScriptLoader.Shell

namespace Builtin

open Act Files

/-- The command `echo`. -/
def echo : Builtin := fun words => return (0, echoText words)

/-- The command `printf`. -/
def printf : Builtin := fun words => do
  let (_, words) ← options [] words
  match words with
  | [] => fail "usage: printf format [arg ...]"
  | format :: words =>
    let (p, fault) := printFormat format words
    p.complaints.forM warn
    match fault with
    | none => return (if p.well then 0 else 1, p.output)
    | some message =>
      warn message
      let _ ← routine (Routine.write Routine.output p.output)
      modify fun s => { s with status := failure }
      throw .failed

/-- The files that are there without being in a tree. -/
def isDevice (name : Raw) : Bool := ["/dev/null", "/dev/stdin", "/dev/stdout", "/dev/stderr"].contains (String.ofList name)

/-- What a condition asks about files. -/
def fileQueries (p : Process) : FileQueries :=
  let node? (name : Raw) : Option Node := (p.machine.node? p.cwd name).toOption
  { has := fun letter name =>
      if isDevice name then "erwc".toList.contains letter
      else if (programAt? name).isSome then "erwxfsOG".toList.contains letter
      else
        match letter with
        | 'h' | 'L' =>
          match p.machine.files.walk false maxLinks (targetStart (Raw.string name) p.cwd) (targetNames (Raw.string name)) with
          | .ok loc =>
            match p.machine.files.node? loc with
            | some (.link _) => !name.isEmpty
            | _ => false
          | .error _ => false
        | _ =>
          match node? name, letter with
          | none, _ => false
          | some (.file content), 's' => !content.isEmpty
          | some (.file _), c => "erwfOG".toList.contains c
          | some .directory, c => "erwxdsOG".toList.contains c
          | some (.link _), _ => false
    same := fun a b =>
      match p.machine.locate p.cwd a, p.machine.locate p.cwd b with
      | .ok x, .ok y => (node? a).isSome && x = y
      | _, _ => false }

/-- The command `test`. -/
def test : Builtin := fun words => do
  match Condition.value (fileQueries (← get).process) words with
  | .ok b => return (if b then 0 else 1, [])
  | .error f => fail f.message

/-- The command `[`, whose last word, which need only begin with a bracket, closes it. -/
def bracket : Builtin := fun words => do
  if (words.getLast?.bind (·.head?)) = some ']' then test words.dropLast else fail "missing ]"

/-- A command that only has a status. -/
def constant (status : Nat) : Builtin := fun _ => return (status, [])

end Builtin

end ScriptLoader.Shell
