import ScriptLoader.Error
import ScriptLoader.Files.Access
import ScriptLoader.Files.RealPath
import ScriptLoader.Source

/-!
# The world of a loader

All that a loader reads and changes: the files, the pages of the network, the programs that can be run, what it remembers, and a record
of what it did. An `Action` takes a world to a result or a failure and a new world; what was done before a failure stays done.
-/

namespace ScriptLoader

open Files

/-- What the network has at a URL. -/
inductive Page where
  | body (content : Bytes)
  | status (code : Nat)
  deriving DecidableEq, Repr

/-- How the run of a program ends: it cannot be run or not in time, its words are no words of a program, or it ends with a status,
which is negative if a signal ended it, and with what it wrote. -/
inductive Outcome where
  | unavailable (details : String)
  | invalid (message : String)
  | finished (status : Int) (output errors : Bytes)
  deriving DecidableEq, Repr

/-- A step of a write to the disk cache. -/
inductive WriteStep where
  | makeDirectory
  | createTemporary
  | writeTemporary
  | moveIntoPlace
  deriving DecidableEq, Repr

/-- What a loader finds outside itself. `run` runs the words of a command in a directory on an input, for so many milliseconds
if there is a limit, which may change files; `trouble` tells which steps of a write the system refuses for reasons of its own. -/
structure Host where
  files : FileSystem
  cwd : Location
  packageRoots : List Location
  pages : List (String × Page)
  run : FileSystem → Location → List String → Bytes → Option Int → Outcome × FileSystem
  trouble : WriteStep → Option Fault

/-- The working directory as a path. -/
def Host.here (h : Host) : Path := ⟨.slash, h.cwd⟩

/-- How much a message matters. -/
inductive Level where
  | debug
  | info
  | warning
  deriving DecidableEq, Repr

/-- How a level is written. -/
def Level.label : Level → String
  | debug => "DEBUG"
  | info => "INFO"
  | warning => "WARNING"

/-- What a loader did. -/
inductive Event where
  | compiling (name : String)
  | lookedUp (name : String)
  | opened (name : String)
  | logged (level : Level) (origin text : String)
  deriving DecidableEq, Repr

/-- The world of a loader. The memory holds compiled code by URI, with the fingerprint of the content it was made from; the events are
kept with the last one first. -/
structure World where
  host : Host
  identities : Identities
  memory : List (String × String × String)
  events : List Event

/-- Why an action has no result. -/
inductive Failure where
  | load (e : LoadError)
  | system (f : Fault) (path : String)
  | invalid (message : String)
  | undecodable
  | unencodable
  | unknownEncoding (label : String)
  | noCommand
  | linkLoop (path : String)
  deriving DecidableEq, Repr

namespace Failure

/-- The failure that a path leads nowhere. -/
def ofPath (p : Path) : PathFault → Failure
  | .system f => system f p.text
  | .nulCharacter => invalid nulReport

/-- The failure that a path has no real path. -/
def ofRealPath : RealPathFault → Failure
  | .linkLoop path => linkLoop path
  | .nulCharacter => invalid nulReport

/-- The report of a failure. -/
def message : Failure → String
  | load e => e.message
  | system f path => f.report path
  | invalid m => m
  | undecodable => "the bytes are no text in this encoding"
  | unencodable => "the text cannot be written in this encoding"
  | unknownEncoding label => "unknown encoding: " ++ label
  | noCommand => "no command"
  | linkLoop path => "Symlink loop from " ++ Text.quoted path

end Failure

/-- What takes a world to a result or a failure and a new world. -/
abbrev Action := ExceptT Failure (StateM World)

namespace Action

/-- The files and all else outside the loader. -/
def host : Action Host := do return (← get).host

/-- Records an event. -/
def record (e : Event) : Action Unit := modify fun w => { w with events := e :: w.events }

/-- Writes a message to the log. -/
def log (level : Level) (origin text : String) : Action Unit := record (.logged level origin text)

/-- Changes the files. -/
def setFiles (fs : FileSystem) : Action Unit := modify fun w => { w with host := { w.host with files := fs } }

/-- A result or a failure as an action. -/
def ofExcept {ε α : Type} (failure : ε → Failure) (r : Except ε α) : Action α :=
  match r with
  | .ok a => return a
  | .error e => throw (failure e)

end Action

end ScriptLoader
