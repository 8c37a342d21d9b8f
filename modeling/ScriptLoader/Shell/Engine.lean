import ScriptLoader.Shell.Builtin.Jobs
import ScriptLoader.Shell.Grammar
import ScriptLoader.Shell.Programs
import ScriptLoader.Shell.Redirect

/-!
# Processes of a shell

How a shell runs scripts, programs and shells of its own. An `Engine` stands for the evaluation of what is nested deeper; what is defined
here takes one as an argument.
-/

namespace ScriptLoader.Shell

/-- How a command is evaluated: its failure is looked at by another command, or nothing follows it in its process. -/
structure Purpose where
  tested : Bool
  final : Bool
  deriving DecidableEq, Repr

/-- The purpose of a command on its own. -/
def Purpose.plain : Purpose := ⟨false, false⟩

/-- The evaluation of commands, of scripts as texts, whose failure may be looked at by another command, and of shells as programs. -/
structure Engine where
  evaluate : Purpose → Tree → Act Nat
  script : Bool → Raw → Act Nat
  shell : List Raw → Routine Ending

namespace Engine

open Act

/-- An engine for what is nested too deep. -/
def exhausted : Engine :=
  { evaluate := fun _ _ => throw (.ended (.killed 11))
    script := fun _ _ => throw (.ended (.killed 11))
    shell := fun _ => return .killed 11 }

/-- Runs traps for signals, in the order of their numbers. -/
def runTrapsOf (e : Engine) (status : Nat) : List Nat → Act Unit
  | [] => return ()
  | n :: ns => do
    let s ← get
    if s.skip ≠ .nothing then set { s with pending := n :: ns }
    else
      match s.traps.lookup n with
      | none => runTrapsOf e status ns
      | some action =>
        let _ ← e.script false action
        modify fun s => if s.skip = .function true then s else { s with status }
        runTrapsOf e status ns

/-- Runs the traps of signals that have arrived. -/
def runTraps (e : Engine) : Act Unit := do
  receiveAll
  let s ← get
  if s.pending.isEmpty then return ()
  let status := s.kept.getD s.status
  set { s with kept := some status, pending := [] }
  runTrapsOf e status (s.pending.eraseDups.mergeSort fun a b => decide (a ≤ b))
  modify fun t => { t with kept := s.kept }

/-- How the process of a shell ends, behind the trap for its end. -/
def leave (e : Engine) : Act Ending := do
  let s ← get
  let status := s.kept.getD s.status
  let s := { s with status, kept := none }
  match s.traps.lookup 0 with
  | none =>
    set s
    return .exited (status % 256)
  | some action =>
    set { s with traps := s.traps.filter (·.1 ≠ 0), skip := .nothing, loops := 0, kept := some status }
    let failed ← tryCatch (do let _ ← e.script false action; return false) fun stop =>
      match stop with
      | .ended ending => throw (.ended ending)
      | .left => return false
      | .failed | .closed => return true
    let s ← get
    return .exited ((if failed then s.status else s.kept.getD s.status) % 256)

/-- Runs a shell to the end of its process. -/
def finish (e : Engine) (act : Act Nat) (s : State) : Ending × State :=
  let whole : Act Ending := do
    tryCatch (do let _ ← act) fun stop =>
      match stop with
      | .ended ending => throw (.ended ending)
      | .left => return ()
      | .failed | .closed => modify fun s => { s with kept := none }
    e.leave
  match whole.run.run s with
  | (.ok ending, s) => (ending, s)
  | (.error (.ended ending), s) => (ending, s)
  | (.error _, s) => (.exited (s.status % 256), s)

/-- The number of the next process. -/
def newNumber : Act Nat := do
  let s ← get
  let m := s.process.machine
  set { s with process := { s.process with machine := { m with nextProcess := m.nextProcess + 1 } } }
  return m.nextProcess

/-- Changes the machine. -/
def changeMachine (f : Machine → Machine) : Act Unit :=
  modify fun s => { s with process := { s.process with machine := f s.process.machine } }

/-- Runs a command in a process with a number of its own, which sees what the shell sees; `prepare` comes before it. It reads no script
but the input. -/
def runChild (e : Engine) (number : Nat) (prepare : State → State) (act : Act Nat) : Act Ending := do
  let s ← get
  let inner := { s with
    process := { s.process with number, caller := s.process.number }
    traps := s.traps.filter (·.2.isEmpty)
    pending := []
    jobs := []
    lineRead := if s.has 's' then s.lineRead else 1 }
  let (ending, after) := e.finish act (prepare inner)
  changeMachine fun _ => after.process.machine
  return ending

/-- The status of a process that the shell has waited for. -/
def waited (ending : Ending) : Act Nat := do
  match ending with
  | .killed signal => if !Signal.isSilent signal then routine (Routine.complain (Signal.report signal))
  | .exited _ => pure ()
  | .endless => throw (.ended .endless)
  modify fun s =>
    let told := s.traps.any fun t => t.1 = Signal.ofChild && !t.2.isEmpty
    { s with pending := if told then s.pending ++ [Signal.ofChild] else s.pending }
  return statusOf ending

/-- Runs a command in a process of its own and waits for it. -/
def runApart (e : Engine) (prepare : State → State) (act : Act Nat) : Act Nat := do
  let number ← newNumber
  let ending ← e.runChild number prepare act
  receiveAll
  waited ending

/-- A shell whose input is empty. -/
def withoutInput (s : State) : State :=
  let (id, machine) := s.process.machine.add ⟨.null, true, false, false, 0⟩
  { s with process := { s.process with machine, descriptors := withDescriptor s.process.descriptors Routine.input id } }

/-- A time after all times. -/
def never : Int := 1000000000000000

/-- Runs a command beside the shell. -/
def runBeside (e : Engine) (act : Act Nat) : Act Nat := do
  let number ← newNumber
  let before := (← get).process.machine
  changeMachine fun m => { m with beside := some ⟨number, m.pipes.size⟩ }
  let ending ← e.runChild number withoutInput act
  let s ← get
  let time := match ending with
    | .endless => never
    | _ => s.process.machine.elapsed
  changeMachine fun m => { m with beside := before.beside, elapsed := before.elapsed }
  changeMachine fun m => m.hold number s.process.descriptors time
  modify fun s => { s with jobs := s.jobs ++ [⟨number, statusOf ending, time⟩], lastJob := some number }
  return 0

/-- The process of the shell as that of another program. -/
def handedOver (s : State) : Process :=
  { s.process with
    environment := s.environment
    ignored := s.process.ignored ++ (s.traps.filter (·.2.isEmpty)).map (·.1) }

/-- Runs the program at a path in the process of the shell, which does not come back. -/
def become {α : Type} (e : Engine) (path : Raw) (words : List Raw) : Act α := do
  let s ← get
  let name := words.head?.getD []
  match programAt? path with
  | none =>
    let (message, status) := refusalReport name (refusal s.process path)
    modify fun s => { s with status }
    warn message
    throw .closed
  | some program =>
    let run : Routine Ending := match tools.lookup program with
      | some tool => tool words
      | none => e.shell words
    let (ending, process) := run.run (handedOver s)
    set { s with process }
    throw (.ended ending)

/-- The output of a command, whose status is kept. -/
def substitute (e : Engine) (script : Tree) : Act Raw := do
  match script with
  | .nothing => return []
  | script =>
    let s ← get
    let (front, back, machine) := s.process.machine.addPipe []
    set { s with process := { s.process with machine } }
    let writing (s : State) : State :=
      { s with process := { s.process with descriptors := withDescriptor s.process.descriptors Routine.output back } }
    let status ← e.runApart writing (e.evaluate ⟨false, true⟩ script)
    modify fun s => { s with substituted := status }
    match ← routine (Routine.readAll front) with
    | .ok text => return text
    | .error _ => return []

/-- Reads and evaluates a script, one command line at a time; `n` bounds the number of lines. -/
def runLines (e : Engine) (tested : Bool) (status : Nat) : Nat → Script → Act Nat
  | 0, _ => return status
  | n + 1, script => do
    match (Reading.nextCommand).run script with
    | .error f =>
      modify fun s => { s with lineRead := f.line }
      refuseScript f.fault
    | .ok (none, _) => return status
    | .ok (some t, script) =>
      modify fun s => { s with documents := script.documents ++ s.documents, nextDocument := script.nextDocument
                               lineRead := script.line }
      let result ← e.evaluate ⟨tested, false⟩ t
      let status := match t with
        | .nothing => status
        | _ => result
      if (← get).skip ≠ .nothing then return status
      runLines e tested status n { script with documents := [] }

/-- Evaluates a script. -/
def runText (e : Engine) (tested : Bool) (text : Raw) : Act Nat := do
  let s ← get
  let status ← runLines e tested 0 (text.length + 2) (Script.start text s.nextDocument)
  modify fun t => { t with lineRead := s.lineRead }
  return status

end Engine

end ScriptLoader.Shell
