import ScriptLoader.Shell.Builtin.Options

/-!
# Builtin commands that direct the shell

The commands that leave loops, functions and the shell.
-/

namespace ScriptLoader.Shell

namespace Builtin

open Act

/-- A command that passes over what is left of loops, or of a round of a loop. -/
def leavingLoops (skip : Skip) : Builtin := fun words => silent do
  let n ← (words.head?.map number).getD (pure 1)
  if n = 0 then fail ("Illegal number: " ++ words.head?.getD [])
  modify fun s =>
    let n := min n s.loops
    if n = 0 then s else { s with skip, levels := n }

/-- The command `return`. -/
def returnCommand : Builtin := fun words => do
  match words with
  | w :: _ =>
    let n ← number w
    modify fun s => { s with skip := .function true }
    return (n, [])
  | [] =>
    modify fun s => { s with skip := .function false }
    return ((← get).status, [])

/-- The command `exit`. -/
def exit : Builtin := fun words => do
  match words with
  | w :: _ =>
    let n ← number w
    modify fun s => { s with kept := some n }
  | [] => pure ()
  throw .left

/-- The command `times`; no time is spent. -/
def times : Builtin := fun _ => return (0, "0m0.000000s 0m0.000000s\n0m0.000000s 0m0.000000s\n")

/-- The command `umask`, which only tells. -/
def umask : Builtin := fun words => do
  let (given, words) ← options ['S'] words
  if !words.isEmpty then return (0, [])
  return (0, if given.isEmpty then "0022\n" else "u=rwx,g=rx,o=rx\n")

/-- The command `ulimit`, which only tells. -/
def ulimit : Builtin := fun _ => return (0, "unlimited\n")

end Builtin

end ScriptLoader.Shell
