import ScriptLoader.Cache.Entry
import ScriptLoader.World

/-!
# The disk cache

Compiled code in a directory, one file for each URI. An entry is written to a temporary file, which is then moved into place, so that
an entry is never seen half written and a write that fails leaves the entry as it was and no temporary file.
-/

namespace ScriptLoader.Cache

open Files

/-- The path of the entry for a source. -/
def entryPath (directory : Path) (s : Source) : Path := directory.join (Path.ofText (Entry.fileName s))

/-- An error of the cache, or the failure itself where the path is none. -/
def storeFailure (cause : String → String → Cause) (p : Path) : PathFault → Failure
  | .system f => .load (.cacheStore (cause p.text (f.report p.text)))
  | .nulCharacter => .invalid nulReport

/-- What the disk cache holds for a source: nothing, an entry for another source or another content, or code. -/
inductive Found where
  | nothing
  | stale
  | code (text : String)
  deriving DecidableEq, Repr

/-- The code that was found. -/
def Found.code? : Found → Option String
  | code text => some text
  | _ => none

/-- What the disk cache holds for a source. A file that is no entry is an error. -/
def diskGet (h : Host) (directory : Path) (s : Source) : Except Failure Found :=
  let path := entryPath directory s
  match h.files.read h.cwd path with
  | .error (.system .notFound) => .ok .nothing
  | .error f => .error (storeFailure .cacheReadFailed path f)
  | .ok bs =>
    match Entry.ofBytes? bs with
    | none => .error (.load (.cacheStore (.cacheReadFailed path.text "not a cache entry")))
    | some e => .ok (if e.fits s then .code e.code else .stale)

/-- A name for a temporary file that is not taken in the directory at `loc`. -/
def temporaryName (fs : FileSystem) (loc : Location) : String :=
  let names := (List.range ((fs.children loc).length + 1)).map fun n => "." ++ toString n ++ ".tmp"
  (names.find? fun n => !(fs.children loc).contains n).getD ".tmp"

/-- A step of a write: the system may refuse it for reasons of its own. -/
def attempt (h : Host) (step : WriteStep) (p : Path) (r : Except PathFault FileSystem) : Except Failure FileSystem :=
  match h.trouble step with
  | some f => .error (storeFailure .cacheWriteFailed p (.system f))
  | none => r.mapError (storeFailure .cacheWriteFailed p)

/-- The directory of the cache is made with all above it; what has been made stays when the rest fails. -/
def prepare (h : Host) (directory p : Path) : FileSystem × Except Failure Unit :=
  match h.trouble .makeDirectory with
  | some f => (h.files, .error (storeFailure .cacheWriteFailed p (.system f)))
  | none =>
    match h.files.ensureDirectories h.cwd directory with
    | (fs, none) => (fs, .ok ())
    | (fs, some f) => (fs, .error (storeFailure .cacheWriteFailed p f))

/-- The place of a temporary file: the directory as seen from the root must be there. -/
def temporaryPath (h : Host) (fs : FileSystem) (directory : Path) : Except PathFault Path := do
  let directory := Path.absolute h.here directory
  let loc ← fs.locate true h.cwd directory
  if fs.isDirectory loc then return ⟨.slash, directory.names ++ [temporaryName fs loc]⟩
  else .error (.system (if (fs.node? loc).isSome then .notDirectory else .notFound))

/-- Writes an entry by way of the temporary file at `temporary`, which is taken away again if the entry cannot be moved into place. -/
def moveIn (h : Host) (fs : FileSystem) (temporary path : Path) (bs : Bytes) : FileSystem × Except Failure Unit :=
  match attempt h .createTemporary path (fs.write h.cwd temporary []) with
  | .error f => (fs, .error f)
  | .ok opened =>
    let moved := do
      let written ← attempt h .writeTemporary path (opened.write h.cwd temporary bs)
      let loc ← (written.locate false h.cwd temporary).mapError (storeFailure .cacheWriteFailed path)
      attempt h .moveIntoPlace path (written.replace h.cwd loc path)
    match moved with
    | .ok fs => (fs, .ok ())
    | .error f =>
      match opened.unlink h.cwd temporary with
      | .ok fs => (fs, .error f)
      | .error _ => (opened, .error f)

/-- Writes the code for a source. The files change also where it fails: directories that have been made stay. -/
def diskPut (h : Host) (directory : Path) (s : Source) (code : String) : FileSystem × Except Failure Unit :=
  let path := entryPath directory s
  match prepare h directory path with
  | (fs, .error f) => (fs, .error f)
  | (fs, .ok ()) =>
    match temporaryPath h fs directory with
    | .error f => (fs, .error (storeFailure .cacheWriteFailed path f))
    | .ok temporary => moveIn h fs temporary path (Entry.ofSource s code).bytes

/-- Takes the named entries of a directory away, one after the other, until one cannot be. An entry that is gone already does not
count. -/
def unlinkAll (h : Host) (directory : Path) (fs : FileSystem) : List String → FileSystem × Except Failure Unit
  | [] => (fs, .ok ())
  | n :: ns =>
    let p := directory.join (Path.ofText n)
    match fs.unlink h.cwd p with
    | .ok fs => unlinkAll h directory fs ns
    | .error (.system .notFound) => unlinkAll h directory fs ns
    | .error f => (fs, .error (Failure.ofPath p f))

/-- The names in the directory of the cache, if it is one. -/
def diskNames (h : Host) (directory : Path) : Option (List String) :=
  match h.files.locate true h.cwd directory with
  | .ok loc => if h.files.isDirectory loc then some (h.files.children loc) else none
  | .error _ => none

/-- Takes every entry away: every file whose name ends like that of an entry. A directory whose name is too long cannot be asked
for. -/
def diskClear (h : Host) (directory : Path) : FileSystem × Except Failure Unit :=
  match h.files.locate true h.cwd directory with
  | .error (.system .nameTooLong) => (h.files, .error (.system .nameTooLong directory.text))
  | _ =>
    match diskNames h directory with
    | none => (h.files, .ok ())
    | some names => unlinkAll h directory h.files (names.filter fun n => ".json".toList.isSuffixOf n.toList)

end ScriptLoader.Cache
