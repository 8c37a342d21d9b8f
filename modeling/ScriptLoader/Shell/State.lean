import ScriptLoader.Process.Routine
import ScriptLoader.Shell.Condition
import ScriptLoader.Shell.Signal
import ScriptLoader.Shell.Tree

/-!
# The state of a shell

A shell is a process with variables, functions, parameters and options. An `Act` takes a shell to a result, or stops it, and to the shell
behind it; what was done before a stop stays done.
-/

namespace ScriptLoader.Shell

/-- A variable, which may be known without having a value. -/
structure Variable where
  value : Option Raw
  exported : Bool
  readOnly : Bool
  deriving DecidableEq, Repr

/-- What a shell passes over: nothing, what is left of loops, what is left of a round of a loop, or what is left of a function, whose status
is given or is that of the last command. -/
inductive Skip where
  | nothing
  | loops
  | round
  | function (given : Bool)
  deriving DecidableEq, Repr

/-- A command that runs beside the shell: its number, its status, and when it ends. -/
structure Job where
  process : Nat
  status : Nat
  finish : Int
  deriving DecidableEq, Repr

/-- The parameters of a shell or of a function, and how far options have been read from them: the number of the next word, and the place
in the word before it. -/
structure Parameters where
  words : List Raw
  nextWord : Nat
  place : Option Nat
  deriving DecidableEq, Repr

/-- Parameters from which nothing has been read. -/
def Parameters.ofWords (words : List Raw) : Parameters := ⟨words, 1, none⟩

/-- What a function hides for a while: a variable as it was, or the options. -/
inductive Hidden where
  | variable (name : Raw) (old : Option Variable)
  | options (old : List Char)
  deriving DecidableEq, Repr

namespace ShellOption

/-- The options of a shell, each with its letter; a letter that is none stands for an option that has only a name. -/
def table : List (String × Char) :=
  [("errexit", 'e'), ("noglob", 'f'), ("ignoreeof", 'I'), ("interactive", 'i'), ("monitor", 'm'), ("noexec", 'n'), ("stdin", 's'),
   ("xtrace", 'x'), ("verbose", 'v'), ("vi", 'V'), ("emacs", 'E'), ("noclobber", 'C'), ("allexport", 'a'), ("notify", 'b'),
   ("nounset", 'u'), ("privileged", 'p'), ("nolog", '.'), ("debug", ',')]

/-- The letters of options. -/
def letters : List Char := (table.map (·.2)).filter Char.isAlpha

end ShellOption

/-- The state of a shell. `substituted` is the status of the last command whose output was put into a word, `kept` the status that is
brought back after a trap, `levels` how many loops are passed over, `calls` how deep functions run in one another, `pending` the signals
whose traps have not run, `found` the programs that were looked up, `number` what the shell calls its own number, `here` its name for the
working directory, and `lineRead` the line up to which the script is read. -/
structure State where
  process : Process
  name : Raw
  parameters : Parameters
  bindings : List (Raw × Variable)
  hidden : List (List Hidden)
  functions : List (Raw × Tree)
  options : List Char
  status : Nat
  substituted : Nat
  kept : Option Nat
  skip : Skip
  levels : Nat
  loops : Nat
  calls : Nat
  line : Nat
  command : Option Raw
  traps : List (Nat × Raw)
  pending : List Nat
  found : List Raw
  jobs : List Job
  lastJob : Option Nat
  documents : List (Nat × List Part)
  nextDocument : Nat
  number : Nat
  here : Raw
  lineRead : Nat

/-- Why a shell does not go on: after a complaint, because it was told to leave, because a failure or the last command ends it, or because
its process has ended without it, by a signal or as another program. -/
inductive Stop where
  | failed
  | left
  | closed
  | ended (e : Ending)
  deriving DecidableEq, Repr

/-- What takes a shell to a result or stops it. -/
abbrev Act := ExceptT Stop (StateM State)

/-- How a program ends as a status. -/
def statusOf : Ending → Nat
  | .exited n => n % 256
  | .killed signal => 128 + signal
  | .endless => 0

namespace State

/-- The value of a variable. -/
def value? (s : State) (x : Raw) : Option Raw := (s.bindings.lookup x).bind (·.value)

/-- The shell with a variable in the place of the one of that name. -/
def put (s : State) (x : Raw) (v : Option Variable) : State :=
  let others := s.bindings.filter fun e => !(e.1 == x)
  { s with bindings := match v with
      | some v => (x, v) :: others
      | none => others }

/-- The option of a letter is on. -/
def has (s : State) (option : Char) : Bool := s.options.contains option

/-- The shell with an option on or off. -/
def turn (s : State) (option : Char) (on : Bool) : State :=
  let others := s.options.filter (· ≠ option)
  { s with options := if on then option :: others else others }

/-- What separates fields. -/
def separators (s : State) : Raw := (s.value? "IFS".toList).getD [' ', '\t', '\n']

/-- What the variables hand to a program. -/
def environment (s : State) : List (Raw × Raw) :=
  s.bindings.filterMap fun (x, v) => if v.exported then v.value.map (x, ·) else none

/-- A report in the name of the shell. -/
def report (s : State) (message : Raw) : Raw :=
  let front := s.name ++ [':', ' '] ++ Raw.ofNat s.line ++ [':', ' ']
  match s.command with
  | some c => front ++ c ++ [':', ' '] ++ message
  | none => front ++ message

/-- Brings back what a function has hidden. -/
def reveal (s : State) (h : Hidden) : State :=
  match h with
  | .variable x old => s.put x old
  | .options old => { s with options := old }

theorem lookup_put (s : State) (x : Raw) (v : Option Variable) : (s.put x v).bindings.lookup x = v := by
  have gone : (s.bindings.filter fun e => !(e.1 == x)).lookup x = none := by
    rw [List.lookup_eq_none_iff]
    intro e he
    have := (List.mem_filter.1 he).2
    simp only [Bool.not_eq_true', beq_eq_false_iff_ne, ne_eq] at this
    simp [Ne.symm this]
  cases v with
  | some v => simp [put]
  | none => simpa [put] using gone

end State

namespace Act

/-- Lets the process of the shell do something. -/
def routine {α : Type} (r : Routine α) : Act α := do
  let s ← get
  let (a, process) := r.run s.process
  set { s with process }
  return a

/-- Complains. -/
def warn (message : Raw) : Act Unit := do routine (Routine.complain ((← get).report message))

/-- The status of a shell that has failed. -/
def failure : Nat := 2

/-- Complains and does not go on. -/
def fail {α : Type} (message : Raw) : Act α := do
  modify fun s => { s with status := failure }
  warn message
  throw .failed

/-- Complains, gives the shell a status, and does not go on. -/
def failWith {α : Type} (status : Nat) (message : Raw) : Act α := do
  modify fun s => { s with status }
  warn message
  throw .failed

/-- A whole number of at least zero. -/
def number (text : Raw) : Act Nat := do
  match Condition.number? text with
  | .ok n => if 0 ≤ n && n ≤ 2147483647 then return n.toNat else fail ("Illegal number: " ++ text)
  | .error f => fail f.message

/-- Refuses what is no name of a variable. -/
def checkName (x : Raw) : Act Unit := do if !Raw.isName x then fail (x ++ ": bad variable name")

/-- Gives a variable a value, whatever its name; without a value it only becomes known. -/
def setNamed (x : Raw) (value : Option Raw) (exported readOnly : Bool) : Act Unit := do
  let s ← get
  let old := s.bindings.lookup x
  if old.any (·.readOnly) && (value.isSome || !readOnly && !exported) then fail (x ++ ": is read only")
  let v : Variable :=
    { value := value.or (old.bind (·.value))
      exported := exported || s.has 'a' || old.any (·.exported)
      readOnly := readOnly || old.any (·.readOnly) }
  set (s.put x (some v))
  if x = "OPTIND".toList then
    let n ← (value.map number).getD (pure 1)
    modify fun s => { s with parameters := { s.parameters with nextWord := max n 1, place := none } }

/-- Gives a variable a value; without one it only becomes known. Its name ends at an equals sign. -/
def setVariable (name : Raw) (value : Option Raw) (exported readOnly : Bool) : Act Unit := do
  let x := name.takeWhile (· ≠ '=')
  checkName x
  setNamed x value exported readOnly

/-- Gives a variable a value. -/
def assign (x value : Raw) : Act Unit := setVariable x (some value) false false

/-- The name and the value of an assignment. -/
def splitAssignment (text : Raw) : Raw × Option Raw :=
  let x := text.takeWhile (· ≠ '=')
  match text.drop x.length with
  | _ :: value => (x, some value)
  | [] => (x, none)

/-- Puts aside what a variable was before, until the function returns. -/
def putAside (x : Raw) (old : Option Variable) : Act Unit := modify fun s =>
  match s.hidden with
  | frame :: frames => { s with hidden := (.variable x old :: frame) :: frames }
  | [] => s

/-- Hides a variable until the function returns. -/
def hide (x : Raw) : Act Unit := do putAside x ((← get).bindings.lookup x)

/-- Brings back what was hidden since there were only so many frames. What was not there before is taken away, if its name is one. -/
def unhide (depth : Nat) : Act Unit := do
  let s ← get
  let frames := s.hidden.take (s.hidden.length - depth)
  set { s with hidden := s.hidden.drop (s.hidden.length - depth) }
  frames.flatten.forM fun h => do
    match h with
    | .variable x none => checkName x
    | _ => pure ()
    modify (·.reveal h)

end Act

end ScriptLoader.Shell
