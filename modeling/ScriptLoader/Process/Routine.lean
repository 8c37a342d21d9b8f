import ScriptLoader.Process.Machine

/-!
# Routines

What a program does: it reads and writes through its descriptors, opens files by name, complains, and ends with a status. A routine takes
a process, which is a machine as one program sees it, to a result and the process behind it.
-/

namespace ScriptLoader

open Files

/-- A machine as one program sees it: with a working directory, descriptors for open files, an environment, its own number and that of
its caller, and the signals that do nothing to it. -/
structure Process where
  machine : Machine
  cwd : Location
  descriptors : List (Nat × Nat)
  environment : List (Raw × Raw)
  number : Nat
  caller : Nat
  ignored : List Nat

/-- How a program ends: with a status, by a signal, or never. -/
inductive Ending where
  | exited (status : Nat)
  | killed (signal : Nat)
  | endless
  deriving DecidableEq, Repr

/-- What takes a process to a result and the process behind it. -/
abbrev Routine := StateM Process

namespace Routine

/-- The descriptor of the input. -/
def input : Nat := 0

/-- The descriptor of the output. -/
def output : Nat := 1

/-- The descriptor for complaints. -/
def errors : Nat := 2

/-- Does something to the machine, if nothing stands against it. -/
def attempt {α : Type} (act : Process → Except Fault (α × Machine)) : Routine (Except Fault α) := do
  match act (← get) with
  | .ok (a, machine) =>
    modify fun p => { p with machine }
    return .ok a
  | .error f => return .error f

/-- Reads at most `n` bytes from an open file. -/
def readOpen (id n : Nat) : Routine (Except Fault Raw) := attempt fun p => p.machine.read id n

/-- Reads what is left of an open file. -/
def readAll (id : Nat) : Routine (Except Fault Raw) := attempt fun p => p.machine.read id (p.machine.remaining id)

/-- The open file of a descriptor; without one, a number that no open file has. -/
def opened (descriptor : Nat) : Routine Nat := do
  let p ← get
  return (p.descriptors.lookup descriptor).getD p.machine.opened.size

/-- Opens a file by its name. -/
def openNamed (how : Opening) (name : Raw) : Routine (Except Fault Nat) :=
  attempt fun p => p.machine.openNamed p.cwd p.descriptors how name

/-- Writes through a descriptor. -/
def write (descriptor : Nat) (cs : Raw) : Routine (Option Fault) := do
  let id ← opened descriptor
  match ← attempt fun p => (p.machine.write id cs).map ((), ·) with
  | .ok () => return none
  | .error f => return some f

/-- Writes a line for the one who called the program. -/
def complain (message : Raw) : Routine Unit := do
  let _ ← write errors (message ++ ['\n'])

/-- Complains in the name of a program. -/
def complainAs (program message : Raw) : Routine Unit := complain (program ++ ": " ++ message)

/-- Complains about how a program was called, and tells where one can read about it. -/
def complainOfUse (program message : Raw) : Routine Unit := do
  complainAs program message
  complain ("Try '" ++ program ++ " --help' for more information.")

/-- Writes the output of a program; the result tells whether it arrived. -/
def print (cs : Raw) : Routine Bool := do
  if cs.isEmpty then return true
  return (← write output cs).isNone

/-- Something is open at a descriptor. -/
def isOpen (descriptor : Nat) : Routine Bool := do return ((← get).descriptors.lookup descriptor).isSome

/-- Complains about output that did not arrive. -/
def complainOfOutput (program : Raw) : Routine Unit := complainAs program ("write error: " ++ Fault.badDescriptor.words)

/-- The status of a program that is done: whether all went well and all output arrived. One that has read its input, which it calls by a
name, complains if it cannot close it. -/
def settle (program : Raw) (input? : Option Raw) (well written : Bool) : Routine Nat := do
  let closed ← match input? with
    | none => pure true
    | some shown => do
      let here ← isOpen input
      if !here then complainAs program (shown ++ [':', ' '] ++ Raw.ofString Fault.badDescriptor.words)
      pure here
  if !written then complainOfOutput program
  return if well && written && closed then 0 else 1

end Routine

end ScriptLoader
