import ScriptLoader.Program.Copying
import ScriptLoader.Program.Counting
import ScriptLoader.Program.Echoing
import ScriptLoader.Program.Exchange
import ScriptLoader.Program.Heading
import ScriptLoader.Program.Pause
import ScriptLoader.Shell.State

/-!
# Programs

The programs that there are, and how one is found: by its path, or by its name in the directories that the variable `PATH` lists.
-/

namespace ScriptLoader.Shell

open Files

/-- The programs besides shells, by name. They take the words that they are called with, and the first is the name used for them. -/
def tools : List (String × (List Raw → Routine Ending)) :=
  let ends (program : List Raw → Routine Nat) (words : List Raw) : Routine Ending := do return .exited (← program (words.drop 1))
  [("cat", ends Program.Copying.run), ("head", ends Program.Heading.run), ("tr", ends Program.Exchange.run),
   ("wc", ends Program.Counting.run), ("true", fun _ => return .exited 0), ("false", fun _ => return .exited 1),
   ("echo", fun words => do return .exited (← Program.Echoing.run (words.head?.getD []) (words.drop 1))),
   ("sleep", fun words => do
     match ← Program.Pause.run (words.drop 1) with
     | some n => return .exited n
     | none => return .endless)]

/-- The names of shells. -/
def shellNames : List String := ["sh", "dash"]

/-- The directories with programs. -/
def programDirectories : List String := ["/usr/bin/", "/bin/"]

/-- The program at a path, by its name. -/
def programAt? (path : Raw) : Option String :=
  (programDirectories.find? (·.toList.isPrefixOf path)).bind fun dir =>
    let name := String.ofList (path.drop dir.length)
    if shellNames.contains name || (tools.lookup name).isSome then some name else none

/-- The parts of a list between colons. -/
def directories (path : Raw) : List Raw :=
  match path with
  | [] => [[]]
  | c :: cs =>
    match directories cs with
    | [] => [[c]]
    | d :: ds => if c = ':' then [] :: d :: ds else (c :: d) :: ds

/-- Where programs are looked for if no one says it. -/
def standardPath : Raw := "/usr/local/sbin:/usr/local/bin:/usr/sbin:/usr/bin:/sbin:/bin"

/-- The paths of a name in directories. -/
def pathsOf (path name : Raw) : List Raw :=
  if name.contains '/' then [name]
  else if name.isEmpty then []
  else (directories path).map fun dir => if dir.isEmpty then name else dir ++ '/' :: name

/-- The path of the program of a name, or why there is none. -/
def State.find (s : State) (path name : Raw) : Except Fault Raw :=
  let paths := pathsOf path name
  if name.contains '/' then .ok name
  else if name.isEmpty && !path.isEmpty then .error .permissionDenied
  else
    match paths.find? fun p => (programAt? p).isSome with
    | some p => .ok p
    | none =>
      .error (if paths.any fun p => (s.process.machine.node? s.process.cwd p).toBool then .permissionDenied else .notFound)

/-- The path of a file of a name. -/
def State.findFile? (s : State) (path name : Raw) : Option Raw :=
  (pathsOf path name).find? fun p =>
    match s.process.machine.node? s.process.cwd p with
    | .ok (.file _) => true
    | _ => false

/-- Where a shell looks for programs. -/
def State.path (s : State) : Raw := (s.value? "PATH".toList).getD []

/-- Why the program at a path cannot be run. -/
def refusal (p : Process) (path : Raw) : Fault :=
  match p.machine.node? p.cwd path with
  | .ok _ => .permissionDenied
  | .error f => f

/-- The report about a program that cannot be run, and the status that comes with it. -/
def refusalReport (name : Raw) (f : Fault) : Raw × Nat :=
  let missing := f = .notFound || f = .notDirectory
  let status := if missing || f = .tooManyLinks || f = .nameTooLong then 127 else 126
  (name ++ [':', ' '] ++ (if missing then "not found" else f.words).toList, status)

end ScriptLoader.Shell
