import ScriptLoader.Shell.Builtin.Options

/-!
# Builtin commands on signals and jobs

`trap`, `kill`, `wait` and `jobs`. A job has run already when it is waited for; what is left of it is its status and the time when it ends.
-/

namespace ScriptLoader.Shell

namespace Act

/-- A signal arrives at the shell. -/
def receive (signal : Nat) : Act Unit := do
  let s ← get
  if s.process.ignored.contains signal && !Signal.isFinal signal then return ()
  match if Signal.isFinal signal then none else s.traps.lookup signal with
  | some [] => return ()
  | some _ => set { s with pending := s.pending ++ [signal] }
  | none => if Signal.isIdle signal then return () else throw (.ended (if Signal.isHalt signal then .endless else .killed signal))

/-- The signals arrive that were sent to the shell. -/
def receiveAll : Act Unit := do
  let s ← get
  let number := s.process.number
  let (mine, others) := s.process.machine.signals.partition (·.1 = number)
  set { s with process := { s.process with machine := { s.process.machine with signals := others } } }
  mine.forM fun e => receive e.2

/-- Sends a signal to a job that may still run. -/
def signalJob (j : Job) (signal : Nat) : Act Unit := modify fun s =>
  let m := s.process.machine
  if m.elapsed < j.finish && !Signal.isIdle signal then
    let ended := { j with status := 128 + signal, finish := m.elapsed }
    { s with
      jobs := s.jobs.map fun i => if i.process = j.process then ended else i
      process := { s.process with machine := m.release j.process } }
  else s

/-- Sends a signal to a process; the result tells whether there is one. -/
def send (process signal : Nat) : Act Bool := do
  let s ← get
  if process = s.process.number then
    receive signal
    return true
  match s.jobs.find? (·.process = process) with
  | some j =>
    signalJob j signal
    return true
  | none =>
    if process = s.number || process = s.process.caller then
      modify fun s =>
        let m := s.process.machine
        { s with process := { s.process with machine := { m with signals := m.signals ++ [(process, signal)] } } }
      return true
    return false

/-- Waits for a job, and reports the signal that ended it. -/
def awaitJob (j : Job) : Act Unit := do
  modify fun s => { s with process := { s.process with machine := s.process.machine.advance j.finish } }
  if 128 < j.status && !Signal.isSilent (j.status - 128) then routine (Routine.complain (Signal.report (j.status - 128)))

end Act

namespace Builtin

open Act

/-- Sets a trap for signals. -/
def setTraps (action : Option Raw) : List Raw → Act Nat
  | [] => return 0
  | name :: names => do
    match Signal.number? 0 name with
    | none =>
      routine (Routine.complain ("trap: " ++ name ++ ": bad trap"))
      return 1
    | some n =>
      let action := action.filter (· ≠ ['-'])
      modify fun s =>
        let others := s.traps.filter (·.1 ≠ n)
        { s with traps := match action with
            | some a => (n, a) :: others
            | none => others }
      setTraps action names

/-- The command `trap`. -/
def trap : Builtin := fun words => do
  let (_, words) ← options [] words
  match words with
  | [] =>
    let traps := (← get).traps.mergeSort fun a b => decide (a.1 ≤ b.1)
    return (0, traps.flatMap fun (n, a) => "trap -- ".toList ++ quoted a ++ [' '] ++ Signal.name n ++ ['\n'])
  | [name] => return (← setTraps none [name], [])
  | first :: names =>
    if (Signal.number? 1 first).isSome then return (← setTraps none (first :: names), [])
    return (← setTraps (some first) names, [])

/-- How `kill` is used. -/
def killUsage : Raw := "Usage: kill [-s sigspec | -signum | -sigspec] [pid | job]... or\nkill -l [exitstatus]"

/-- Complains that there is no such process. -/
def noSuchProcess : Act Nat := do
  warn "No such process\n"
  return 1

/-- The job that a word behind a percent sign names: one by its number, the last one, or the one before it. -/
def namedJob (w : Raw) : Act Job := do
  let jobs := (← get).jobs
  let (found, missing) := match w.drop 1 with
    | [] | ['+'] | ['%'] => (jobs.getLast?, "No current job".toList)
    | ['-'] => (jobs.dropLast.getLast?, "No previous job".toList)
    | ds => ((Raw.decimal? ds).bind fun n => if n = 0 then none else jobs[n - 1]?, "No such job: ".toList ++ w)
  match found with
  | some j => return j
  | none => fail missing

/-- Sends a signal to the processes that words name; the result tells whether one was missing. -/
def sendAll (signal : Nat) : List Raw → Act Nat
  | [] => return 0
  | w :: ws => do
    let status ← match w with
      | '%' :: _ => do
        let _ ← namedJob w
        noSuchProcess
      | '-' :: ds => do
        let _ ← number ds
        noSuchProcess
      | ds => do
        let n ← number ds
        if ← send n signal then pure 0 else noSuchProcess
    return max status (← sendAll signal ws)

/-- Lists signals. -/
def listSignals (words : List Raw) : Act (Nat × Raw) := do
  match words with
  | [] => return (0, ['0', '\n'] ++ (Signal.all 1).flatMap fun n => Signal.name n ++ ['\n'])
  | w :: _ =>
    let n ← number w
    let n := if 128 < n then n - 128 else n
    if n = 0 || Signal.last < n then fail ("invalid signal number or exit status: " ++ w)
    return (0, Signal.name n ++ ['\n'])

/-- The signal of the options of `kill`, and whether signals are listed. -/
def killOptions (given : List (Char × Raw)) : Act (Option Nat × Bool) := do
  let signals ← (given.filter (·.1 = 's')).mapM fun (_, v) => do
    match Signal.number? 1 v with
    | some n => return n
    | none => fail ("invalid signal number or name: " ++ v)
  return (signals.getLast?, given.any (·.1 = 'l'))

/-- The command `kill`. -/
def kill : Builtin := fun words => do
  match words with
  | [] => fail killUsage
  | first :: rest =>
    let named := if first.head? = some '-' then Signal.number? 1 (first.drop 1) else none
    let (signal, lists, words) ←
      match named with
      | some n => pure (some n, false, rest)
      | none => do
        let (given, words) ← options "ls:".toList words
        let (signal, lists) ← killOptions given
        pure (signal, lists, words)
    if lists then
      if signal.isSome then fail killUsage
      listSignals words
    else
      if words.isEmpty then fail killUsage
      return (← sendAll (signal.getD 15) words, [])

/-- Waits for what words name; the result is the status of the last one that is there, or what `before` says. -/
def waitFor (before : Nat) : List Raw → Act Nat
  | [] => return before
  | w :: ws => do
    let job? ← match w with
      | '%' :: _ => do
        let j ← namedJob w
        pure (some j)
      | ds => do
        let n ← number ds
        pure ((← get).jobs.find? (·.process = n))
    match job? with
    | some j =>
      awaitJob j
      waitFor j.status ws
    | none => waitFor before ws

/-- The command `wait`. -/
def wait : Builtin := fun words => do
  let (_, words) ← options [] words
  if !words.isEmpty then return (← waitFor 127 words, [])
  let s ← get
  let last := s.jobs.foldl (fun t j => max t j.finish) s.process.machine.elapsed
  set { s with process := { s.process with machine := s.process.machine.advance last } }
  return (0, [])

/-- How a job is doing. -/
def jobState (now : Int) (j : Job) : Raw :=
  if now < j.finish then "Running"
  else if 128 < j.status then Signal.report (j.status - 128)
  else if j.status = 0 then "Done"
  else "Done(" ++ Raw.ofNat j.status ++ [')']

/-- The command `jobs`, which forgets the jobs that have ended. -/
def jobsCommand : Builtin := fun words => do
  let _ ← options ['l', 'p'] words
  let s ← get
  let now := s.process.machine.elapsed
  let row (j : Job) (i : Nat) : Raw :=
    let mark := if i + 1 = s.jobs.length then '+' else if i + 2 = s.jobs.length then '-' else ' '
    let text := ['['] ++ Raw.ofNat (i + 1) ++ [']', ' ', mark, ' '] ++ jobState now j
    text ++ List.replicate (33 - text.length) ' ' ++ ['\n']
  set { s with jobs := s.jobs.filter fun j => now < j.finish }
  return (0, (s.jobs.zipIdx.reverse).flatMap fun (j, i) => row j i)

end Builtin

end ScriptLoader.Shell
