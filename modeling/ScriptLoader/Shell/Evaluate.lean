import ScriptLoader.Shell.Builtin.Table

/-!
# Evaluation

What the commands of a script do. A command that fails ends a shell with the option `e`, unless its failure is looked at by another
command.
-/

namespace ScriptLoader.Shell

namespace Engine

open Act

/-- How often a loop may go round before it counts as endless. -/
def maxRounds : Nat := 100000

/-- How deep functions may be called in one another. -/
def maxCalls : Nat := 1000

/-- What a loop does about what is passed over, at the end of a part of it. -/
def skipLoop : Act Skip := do
  let s ← get
  match s.skip with
  | .nothing => return .nothing
  | .function given => return .function given
  | skip =>
    let left := s.levels - 1
    if left = 0 then
      set { s with levels := left, skip := .nothing }
      return skip
    set { s with levels := left }
    return .loops

/-- Runs a part of a loop. -/
def inLoop {α : Type} (act : Act α) : Act α := do
  modify fun s => { s with loops := s.loops + 1 }
  let a ← act
  modify fun s => { s with loops := s.loops - 1 }
  return a

/-- Runs a loop with a condition; `n` bounds how often it goes round. -/
def loopFrom (e : Engine) (p : Purpose) (untilTrue : Bool) (condition body : Tree) (status : Nat) : Nat → Act Nat
  | 0 => throw (.ended .endless)
  | n + 1 => do
    let i ← e.evaluate ⟨true, false⟩ condition
    match ← skipLoop with
    | .round => loopFrom e p untilTrue condition body status n
    | .function true => return i
    | .function false | .loops => return status
    | .nothing =>
      if (i = 0) = untilTrue then return status
      let status ← e.evaluate ⟨p.tested, false⟩ body
      match ← skipLoop with
      | .nothing | .round => loopFrom e p untilTrue condition body status n
      | _ => return status

/-- Runs a loop over words. -/
def eachFrom (e : Engine) (p : Purpose) (name : Raw) (body : Tree) (status : Nat) : List Raw → Act Nat
  | [] => return status
  | w :: ws => do
    assign name w
    let status ← e.evaluate ⟨p.tested, false⟩ body
    match ← skipLoop with
    | .nothing | .round => eachFrom e p name body status ws
    | _ => return status

/-- One of the patterns matches the text. -/
def matchesAny (e : Engine) (text : Raw) : List (List Part) → Act Bool
  | [] => return false
  | w :: ws => do
    if matchesPattern (← Expansion.patternOf e.substitute w) text then return true
    matchesAny e text ws

/-- Runs the first case with a pattern that matches the text. -/
def choose (e : Engine) (p : Purpose) (text : Raw) : List (List (List Part) × Tree) → Act Nat
  | [] => return 0
  | (patterns, body) :: cases => do
    if ← matchesAny e text patterns then
      match body with
      | .nothing => return 0
      | body => e.evaluate p body
    else choose e p text cases

/-- A shell with other open files for its input and its output. -/
def connected (input output : Option Nat) (s : State) : State :=
  let ds := s.process.descriptors
  let ds := (input.map fun id => withDescriptor ds Routine.input id).getD ds
  let ds := (output.map fun id => withDescriptor ds Routine.output id).getD ds
  { s with process := { s.process with descriptors := ds } }

/-- What is left of a stage of a pipeline: how it ended, when, and the pipe that it wrote to. -/
structure Stage where
  ending : Ending
  finish : Int
  pipe : Option Nat

/-- Runs the stages of a pipeline, all of them beginning at the same time. -/
def runStages (e : Engine) (start : Int) (input : Option Nat) : List Tree → Act (List Stage)
  | [] => return []
  | t :: ts => do
    let number ← newNumber
    let m := (← get).process.machine
    let (output, next) ← if ts.isEmpty then pure (none, none) else do
      let (front, back, machine) := m.addPipe []
      changeMachine fun _ => machine
      pure (some back, some front)
    let ending ← e.runChild number (connected input output) (e.evaluate ⟨false, true⟩ t)
    let finish := (← get).process.machine.elapsed
    changeMachine fun m =>
      let m := if ending = .endless then m else m.hold number (output.toList.map (Routine.output, ·)) finish
      { m with elapsed := start }
    let rest ← runStages e start next ts
    return ⟨ending, finish, if ts.isEmpty then none else some m.pipes.size⟩ :: rest

/-- How a stage ends when all have run: one that never ends by itself ends when no one reads what it writes. -/
def Stage.settled (m : Machine) (s : Stage) : Ending :=
  match s.ending, s.pipe with
  | .endless, some pipe => if (m.pipeContent pipe).isEmpty then .endless else .killed 13
  | ending, _ => ending

/-- Runs a pipeline; its status is that of its last command. -/
def pipeline (e : Engine) (commands : List Tree) : Act Nat := do
  let start := (← get).process.machine.elapsed
  let stages ← runStages e start none commands
  let m := (← get).process.machine
  changeMachine fun m => m.advance (stages.foldl (fun t s => if s.ending = .endless then t else max t s.finish) start)
  receiveAll
  let statuses ← (stages.map (·.settled m)).mapM waited
  return statuses.getLast?.getD 0

/-- Evaluates behind redirections. -/
def redirected (e : Engine) (rs : List Redirection) (act : Act Nat) : Act Nat := do
  let opened ← expandRedirections e.substitute rs
  behind e.substitute opened false fun failed => if failed then return failure else act

/-- Calls a function, whose parameters go with it, also when the shell stops in it. -/
def call (e : Engine) (p : Purpose) (body : Tree) (words : List Raw) : Act Nat := do
  let s ← get
  if maxCalls ≤ s.calls then fail ("Maximum function recursion depth (" ++ Raw.ofNat maxCalls ++ ") reached")
  set { s with parameters := .ofWords (words.drop 1), loops := 0, calls := s.calls + 1 }
  let back (t : State) : State := { t with parameters := s.parameters, loops := s.loops, calls := s.calls }
  let status ← tryCatch (e.evaluate ⟨p.tested, false⟩ body) fun stop => do
    modify back
    throw stop
  modify fun t =>
    let skip := match t.skip with
      | .function _ => .nothing
      | skip => skip
    { back t with skip }
  return status

/-- Writes the output of a builtin command; the result is its status. -/
def writeOutput (name : Raw) (status : Nat) (output : Raw) : Act Nat := do
  if output.isEmpty then return status
  match ← routine (Routine.write Routine.output output) with
  | none => return status
  | some _ =>
    warn (name ++ ": I/O error")
    return max status 1

/-- Runs a builtin command. The failure of one that is not special is its status. -/
def runBuiltin (e : Engine) (p : Purpose) (b : BuiltinEntry) (strict : Bool) (words : List Raw) : Act Nat := do
  let name := words.head?.getD []
  let before := (← get).command
  modify fun s => { s with command := some name }
  let act : Act Nat := do
    let (status, output) ← b.run e p (words.drop 1)
    writeOutput name status output
  let status ← tryCatch act fun stop => do
    modify fun s => { s with command := before }
    if strict then throw stop
    match stop with
    | .failed => return (← get).status
    | stop => throw stop
  modify fun s => { s with status, command := before }
  return status

/-- Words that are expanded, those that were passed over apart, and words that are not expanded yet. -/
structure Filling where
  passed : List Raw
  done : List Raw
  rest : List (List Part)

/-- Expands words until there is a text. -/
def fillFirst (e : Engine) (passed : List Raw) : List (List Part) → Act Filling
  | [] => return ⟨passed, [], []⟩
  | w :: ws => do
    match ← Expansion.fields e.substitute w with
    | [] => fillFirst e passed ws
    | done => return ⟨passed, done, ws⟩

/-- Passes over a text, behind which there is another one if the words have it. -/
def fillNext (e : Engine) (f : Filling) : Act Filling := do
  let passed := f.passed ++ f.done.take 1
  match f.done.drop 1 with
  | [] => fillFirst e passed f.rest
  | done => return ⟨passed, done, f.rest⟩

/-- What the words of a command call: a function, a builtin command, or a program. -/
inductive Callee where
  | function (body : Tree)
  | builtin (b : BuiltinEntry)
  | program

/-- What a name calls. -/
def callee (s : State) (noFunctions : Bool) (name : Raw) : Callee :=
  match if noFunctions then none else s.functions.lookup name with
  | some body => .function body
  | none =>
    match BuiltinEntry.find? name with
    | some b => .builtin b
    | none => .program

/-- Passes over `command` and its options. The result tells whether a command follows, and whether it is looked for in the standard places;
`n` bounds the number of options. -/
def behindCommand (e : Engine) (standard : Bool) : Nat → Filling → Act (Filling × Bool × Bool)
  | 0, f => return (f, false, standard)
  | n + 1, f => do
    let f ← fillNext e f
    match f.done with
    | [] => return (f, false, standard)
    | ['-', '-'] :: _ => do
      let f ← fillNext e f
      return (f, !f.done.isEmpty, standard)
    | ('-' :: c :: cs) :: _ => if (c :: cs).all (· = 'p') then behindCommand e true n f else return (f, false, standard)
    | _ => return (f, true, standard)

/-- A command that is ready to be called: its words so far, what they call, whether it is special, whether `command` stands in front of
it, and whether that looks in the standard places. -/
structure Prepared where
  filling : Filling
  callee : Callee
  special : Option Bool
  behind : Bool
  standard : Bool

/-- Finds out what words call; `n` bounds how often `command` may stand in front. -/
def prepare (e : Engine) (special : Option Bool) (behind standard : Bool) : Nat → Filling → Act Prepared
  | 0, f => return ⟨f, .program, special, behind, standard⟩
  | n + 1, f => do
    match callee (← get) behind (f.done.head?.getD []) with
    | .builtin b =>
      let special := special.or (some b.special)
      if b.name ≠ "command" then return ⟨f, .builtin b, special, behind, standard⟩
      match ← behindCommand e standard maxRounds { f with passed := [] } with
      | (inner, true, standard) => prepare e special true standard n { inner with passed := [] }
      | (whole, false, _) => return ⟨{ whole with passed := [], done := whole.passed ++ whole.done }, .builtin b, special, behind, standard⟩
    | c => return ⟨f, c, special, behind, standard⟩

/-- Expands the words that are left; where the command takes assignments, a word that is one stays whole. -/
def fillRest (e : Engine) (assigns : Bool) : List (List Part) → Act (List Raw)
  | [] => return []
  | w :: ws => do
    let here ←
      if assigns && isAssignment w then do pure [← Expansion.text e.substitute Style.assigned w]
      else Expansion.fields e.substitute w
    return here ++ (← fillRest e assigns ws)

/-- Makes the assignments in front of a command: for the command alone, or for good. The result is their texts. -/
def makeAssignments (e : Engine) (alone exported : Bool) : List (List Part) → Act (List Raw)
  | [] => return []
  | w :: ws => do
    let text ← Expansion.text e.substitute Style.assigned w
    let (x, value) := splitAssignment text
    if alone then hide x
    setVariable x (some (value.getD [])) (alone || exported) false
    return text :: (← makeAssignments e alone exported ws)

/-- Shows a command before it runs, through the descriptors that were there before its redirections. -/
def trace (before : List (Nat × Nat)) (words : List Raw) : Act Unit := do
  let s ← get
  if s.has 'x' then
    let mark := (s.value? "PS4".toList).getD []
    changeDescriptors fun _ => before
    routine (Routine.complain (mark ++ Raw.join [' '] words))
    changeDescriptors fun _ => s.process.descriptors

/-- Runs a program: in the place of the shell if nothing follows, and beside it otherwise. -/
def runProgram (e : Engine) (p : Purpose) (standard : Bool) (words : List Raw) : Act Nat := do
  let s ← get
  let name := words.head?.getD []
  match s.find (if standard then standardPath else s.path) name with
  | .error f =>
    warn (refusalReport name f).1
    return 127
  | .ok path =>
    if !name.contains '/' && !s.found.contains name then set { s with found := name :: s.found }
    if p.final && s.traps.all (·.2.isEmpty) then e.become path words
    e.runApart id (e.become path words)

/-- Runs what is prepared. -/
def perform (e : Engine) (p : Purpose) (c : Prepared) (words : List Raw) : Act Nat := do
  match c.callee with
  | .function body => e.call p body words
  | .builtin b => e.runBuiltin p b (c.special = some true) words
  | .program => e.runProgram p c.standard words

/-- Runs a simple command that has words. -/
def command (e : Engine) (p : Purpose) (f : Filling) (assignments : List (List Part)) (rs : List Redirection) : Act Nat := do
  let c ← e.prepare none false false maxRounds f
  let (assigns, execs) := match c.callee with
    | .builtin b => (b.assigns, b.name == "exec")
    | _ => (false, false)
  let words := c.filling.done ++ (← e.fillRest assigns c.filling.rest)
  let alone := c.special ≠ some true
  let depth := (← get).hidden.length
  if alone then modify fun s => { s with hidden := [] :: s.hidden }
  let opened ← expandRedirections e.substitute rs
  let before := (← get).process.descriptors
  let status ← behind e.substitute opened execs fun failed => do
    if failed then
      if c.special = some true then throw .failed
      return failure
    let texts ← e.makeAssignments alone (execs && 1 < words.length) assignments
    trace before (texts ++ words)
    e.perform p c words
  unhide depth
  return status

/-- Runs a simple command. -/
def simple (e : Engine) (p : Purpose) (line : Nat) (assignments words : List (List Part)) (rs : List Redirection) : Act Nat := do
  modify fun s => { s with line, substituted := 0 }
  let f ← e.fillFirst [] words
  if !f.done.isEmpty then e.command p f assignments rs
  else
    let opened ← expandRedirections e.substitute rs
    let before := (← get).process.descriptors
    behind e.substitute opened false fun failed => do
      if failed then return failure
      let texts ← e.makeAssignments false false assignments
      trace before texts
      return (← get).substituted

/-- Evaluates a command; the result is its status, which the shell has then too. -/
def step (e : Engine) (p : Purpose) (t : Tree) : Act Nat := do
  let done (status : Nat) : Act Nat := do
    modify fun s => { s with status }
    return status
  let tested : Purpose := ⟨true, false⟩
  match t with
  | .nothing => return (← get).status
  | .simple line assignments words rs => do done (← e.simple p line assignments words rs)
  | .pipeline commands => do done (← e.pipeline commands)
  | .background c => do done (← e.runBeside (e.evaluate ⟨false, true⟩ c))
  | .subshell line c rs => do
    modify fun s => { s with line }
    let opened ← expandRedirections e.substitute rs
    let act : Act Nat := do
      openAll e.substitute opened
      e.evaluate ⟨p.tested, true⟩ c
    if p.final && (← get).traps.all (·.2.isEmpty) then act else done (← e.runApart id act)
  | .redirected line c rs => do
    modify fun s => { s with line }
    done (← e.redirected rs (e.evaluate ⟨p.tested, false⟩ c))
  | .sequence a b => do
    let _ ← e.evaluate ⟨p.tested, false⟩ a
    if (← get).skip ≠ .nothing then return (← get).status
    e.evaluate p b
  | .both a b => do
    let status ← e.evaluate tested a
    if status ≠ 0 || (← get).skip ≠ .nothing then return (← get).status
    e.evaluate p b
  | .either a b => do
    let status ← e.evaluate tested a
    if status = 0 || (← get).skip ≠ .nothing then return (← get).status
    e.evaluate p b
  | .negation c => do
    let status ← e.evaluate tested c
    done (if status = 0 then 1 else 0)
  | .branch condition yes no => do
    let status ← e.evaluate tested condition
    if (← get).skip ≠ .nothing then return (← get).status
    match if status = 0 then yes else no with
    | .nothing => done 0
    | t => e.evaluate p t
  | .loop untilTrue condition body => do done (← inLoop (e.loopFrom p untilTrue condition body 0 maxRounds))
  | .each line name words body => do
    modify fun s => { s with line }
    let texts ← e.fillRest false words
    done (← inLoop (e.eachFrom p name body 0 texts))
  | .choice line subject cases => do
    modify fun s => { s with line }
    let text ← Expansion.text e.substitute Style.single subject
    done (← e.choose p text cases)
  | .definition line name body => do
    modify fun s => { s with line, functions := (name, body) :: s.functions.filter fun f => !(f.1 == name) }
    done 0

/-- A failure of the command ends a careful shell. -/
def isChecked : Tree → Bool
  | .simple _ _ _ _ | .pipeline _ | .subshell _ _ _ => true
  | _ => false

/-- Evaluates a command, with traps before and behind it. -/
def evaluateWith (e : Engine) (p : Purpose) (t : Tree) : Act Nat := do
  if (← get).has 'n' then return (← get).status
  if !(t matches .nothing) then e.runTraps
  let status ← e.step p t
  if isChecked t && status ≠ 0 && !p.tested && (← get).has 'e' then throw .closed
  e.runTraps
  if p.final then throw .closed
  return (← get).status

end Engine

end ScriptLoader.Shell
