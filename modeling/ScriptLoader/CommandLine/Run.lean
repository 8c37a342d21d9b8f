import ScriptLoader.Command.Words
import ScriptLoader.CommandLine.Options
import ScriptLoader.Loader

/-!
# A run of the command line

One source is compiled, and its code is written to a file or to the output. Nothing is written before the code is there. Reports go to
the errors, in colours.
-/

namespace ScriptLoader.CommandLine

open Text

/-- How a run ends: its arguments cannot be read, or it ends with a status and what it wrote to the output and to the errors. -/
inductive Ending where
  | usage
  | finished (status : Nat) (output errors : String)
  deriving DecidableEq, Repr

/-- A text in red. -/
def red (s : String) : String := "\x1b[91m" ++ s ++ "\x1b[0m"

/-- A text in green. -/
def green (s : String) : String := "\x1b[92m" ++ s ++ "\x1b[0m"

/-- A text in cyan. -/
def cyan (s : String) : String := "\x1b[96m" ++ s ++ "\x1b[0m"

/-- An option that is given and not empty. -/
def chosen (s : Option String) : Option String := s.filter fun s => !s.isEmpty

/-- The compiler that the options ask for, if the command can be read. -/
def compilerOf (o : Options) : Except Command.WordFault Compiler :=
  match chosen o.command with
  | some command => (Command.words command).map fun words => .command words none Config.standard.encoding
  | none => .ok (.eraser Config.standard o.checkImports)

/-- The loader that the options ask for; the working directory is searched first. -/
def loaderOf (h : Host) (o : Options) (compiler : Compiler) : Loader where
  config := Config.standard
  lookup := .search (h.here.text :: o.searchPath)
  compiler := compiler
  cache := match chosen o.cacheDirectory with
    | some directory => .disk (Path.ofText directory)
    | none => .nowhere

/-- Where the code of an input is written. -/
def outputPath (h : Host) (o : Options) (input : String) : Path :=
  let name := (chosen o.output).getD
    (replaceExtension input Config.standard.sourceExtension Config.standard.compiledExtension)
  Path.absolute h.here (Path.ofText name)

/-- Writes a file, with the directories above it. -/
def writeOutput (p : Path) (bs : Bytes) : Action Unit := do
  let h ← Action.host
  let (files, fault) := h.files.ensureDirectories h.cwd p.parent
  Action.setFiles files
  match fault with
  | some f => throw (Failure.ofPath p.parent f)
  | none =>
    let files ← Action.ofExcept (Failure.ofPath p) (files.write h.cwd p bs)
    Action.setFiles files

/-- Compiles the input and delivers the code. The result is what goes to the output and what is reported. -/
def deliver (l : Loader) (o : Options) (input : String) : Action (String × String) := do
  let code ← l.compile input
  if o.output = some "-" then return (code, "")
  let p := outputPath (← Action.host) o input
  writeOutput p (← Action.ofExcept id (encodeText l.config.encoding code))
  return ("", green "--- Compilation Successful ---" ++ "\nJavaScript written to " ++ p.text ++ "\n")

/-- The report of a failure that ends a run; others are none of its business. -/
def failureReport? : Failure → Option String
  | .load e =>
    if e.kind = .compilation then some ("\n" ++ red ("--- COMPILATION ERROR ---\n" ++ e.diagnostics) ++ "\n")
    else some (red ("ERROR: " ++ e.message) ++ "\n")
  | .system f path => some (red ("ERROR: " ++ f.report path) ++ "\n")
  | _ => none

/-- The messages of the log, the first one first. -/
def logLines (verbose : Bool) (events : List Event) : String :=
  String.join (events.reverse.map fun e =>
    match e with
    | .logged level origin text =>
      if verbose || level = .warning then level.label ++ " " ++ origin ++ ": " ++ text ++ "\n" else ""
    | _ => "")

/-- Compiles and delivers, and tells how the run ends: the status, what goes to the output, and the report. -/
def attempt (l : Loader) (o : Options) (input : String) : Action (Nat × String × String) :=
  tryCatch (do return (0, ← deliver l o input)) fun f =>
    match failureReport? f with
    | some report => return (1, "", report)
    | none => throw f

/-- A run with these arguments; `duration` is the time that it takes, in seconds. -/
def run (duration : String) (args : List String) : Action Ending := do
  match options? args with
  | none => return .usage
  | some o =>
    let input := o.input.getD ""
    let h ← Action.host
    let compiler ← Action.ofExcept (fun (f : Command.WordFault) => .invalid f.message) (compilerOf o)
    let before := (← get).events.length
    let (status, output, report) ← attempt (loaderOf h o compiler) o input
    let events := (← get).events
    let log := logLines o.verbose (events.take (events.length - before))
    return .finished status output ("--- Compiling " ++ input ++ " ---\n" ++ log ++ report ++
      cyan ("--- Total Execution Time: " ++ duration ++ " seconds ---") ++ "\n")

end ScriptLoader.CommandLine
