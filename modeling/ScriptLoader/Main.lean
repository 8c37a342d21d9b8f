import ScriptLoader.Command.Run
import ScriptLoader.CommandLine.Run

/-!
# The program

The outer layer of the command line. The files below the working directory and below the directories that the arguments name are read
into a file system, the run is made on it, and the files that it has changed are written. There is no network, and only the programs
of `Command.run` can be run.
-/

namespace ScriptLoader.Main

open Files

/-- The bytes of a file. -/
def bytesAt (path : String) : IO Bytes := return (← IO.FS.readBinFile path).toList

/-- A link with what it leads to, if that is a file. A link is kept as one to the real path of its target. -/
def readLink (fs : FileSystem) (loc : Location) (target : String) (toDirectory : Bool) : IO FileSystem := do
  let fs := fs.set loc (.link target)
  let p := Path.ofText target
  if toDirectory then return fs
  else return ((fs.ensureDirectories [] p.parent).1).set p.names (.file (← bytesAt target))

/-- Everything below a directory, but for what cannot be read. -/
partial def readBelow (fs : FileSystem) (loc : Location) (entry : IO.FS.DirEntry) : IO FileSystem := do
  let loc := loc ++ [entry.fileName]
  try
    match (← entry.path.symlinkMetadata).type with
    | .dir => (← entry.path.readDir).foldlM (fun fs e => readBelow fs loc e) (fs.set loc .directory)
    | .file => return fs.set loc (.file (← bytesAt entry.path.toString))
    | .symlink =>
      let real ← IO.FS.realPath entry.path
      readLink fs loc real.toString (← real.isDir)
    | .other => return fs
  catch _ => return fs

/-- A directory with everything below it; one that is not there has nothing below it. -/
def readTree (fs : FileSystem) (path : String) : IO FileSystem := do
  try
    let real ← IO.FS.realPath path
    let p := Path.ofText real.toString
    (← real.readDir).foldlM (fun fs e => readBelow fs p.names e) (fs.ensureDirectories [] p).1
  catch _ => return fs

/-- The directories that a run can read from: the working directory, and those of the input, of the search path and of the cache. -/
def trees (here : String) (args : List String) : List String :=
  match CommandLine.options? args with
  | none => []
  | some o =>
    let near := (o.input.map fun input => (Path.parent (Path.ofText input)).text).filter (· ≠ ".")
    here :: (near.toList ++ o.searchPath ++ o.cacheDirectory.toList)

/-- Writes a file that has changed, with the directories above it. -/
def writeChange (change : Location × Bytes) : IO Unit := do
  let path := Path.text ⟨.slash, change.1⟩
  IO.FS.createDirAll (Path.text (Path.parent ⟨.slash, change.1⟩))
  IO.FS.writeBinFile path (ByteArray.mk change.2.toArray)

/-- Seconds with four decimal places, from milliseconds. -/
def seconds (ms : Nat) : String :=
  let rest := toString (ms % 1000 * 10)
  toString (ms / 1000) ++ "." ++ String.ofList (List.replicate (4 - rest.length) '0') ++ rest

/-- Makes a run and gives its status. -/
def run (args : List String) : IO UInt32 := do
  let begun ← IO.monoMsNow
  let here := (← IO.currentDir).toString
  let files ← (trees here args).foldlM readTree .empty
  let world : World :=
    { host := { files, cwd := Path.namesOf here, packageRoots := [], pages := [], run := Command.run
                trouble := fun _ => none }
      identities := .empty, memory := [], events := [] }
  let (result, after) := (CommandLine.run (seconds ((← IO.monoMsNow) - begun)) args).run.run world
  (files.changes after.host.files).forM writeChange
  match result with
  | .error f =>
    IO.eprintln f.message
    return 1
  | .ok .usage =>
    IO.eprintln "usage: tsl [-o OUTPUT] [--cache-dir DIR] [--search-path DIR] [--command COMMAND] [--no-check-imports] [-v] input"
    return 2
  | .ok (.finished status output errors) =>
    IO.print output
    IO.eprint errors
    return UInt32.ofNat status

end ScriptLoader.Main

/-- The program. -/
def main (args : List String) : IO UInt32 := ScriptLoader.Main.run args
