import ScriptLoader.Address
import ScriptLoader.Reading

/-!
# Lookups

Where names are looked up that are not read directly: in a list of directories, in a package, in several lookups one after the other,
or in a table. A directory gives only files that lie below it when all links have been followed.
-/

namespace ScriptLoader

open Text Files

/-- A lookup of names. -/
inductive Lookup where
  | search (roots : List String)
  | package (name : String)
  | chain (lookups : List Lookup)
  | table (urls : List (String × String))
  deriving Inhabited

namespace Lookup

/-- A name that is looked up below a directory: neither empty nor seen from the root. -/
def isRelativeName (name : String) : Bool := !name.isEmpty && !startsWith name "/"

/-- The file that a name leads to from one directory, as its real path, if it lies below the directory. -/
def fileBelow? (h : Host) (name root : String) : Except Failure (Option Path) := do
  let root ← h.realPath (Path.ofText root)
  let candidate ← h.realPath (root.join (Path.ofText name))
  if root.names.isPrefixOf candidate.names then
    match h.files.leadsToFile h.cwd candidate with
    | .error f => .error (.system f candidate.text)
    | .ok found => .ok (if found then some candidate else none)
  else .ok none

/-- The first file that a name leads to from the directories in order. A name that no path can hold is nowhere. -/
def searchFor (h : Host) (name : String) : List String → Except Failure (Option String)
  | [] => .ok none
  | root :: roots =>
    match fileBelow? h name root with
    | .error (.invalid _) => .ok none
    | .error f => .error f
    | .ok (some p) => .ok (some p.uri)
    | .ok none => searchFor h name roots

/-- The directory that the names of a package lead to from an import root: each must be a package itself. -/
def packageBelow? (h : Host) (here : Location) : List String → Option Location
  | [] => some here
  | n :: ns =>
    match h.files.content? (here ++ [n, "__init__.py"]) with
    | some _ => packageBelow? h (here ++ [n]) ns
    | none => none

/-- The directory of a package. -/
def packageDirectory? (h : Host) (package : String) : Option Location :=
  h.packageRoots.findSome? fun root => packageBelow? h root (fields '.' package)

/-- The file that a name leads to from the directory of a package. -/
def packageFile (h : Host) (package name : String) : Except Failure (Option String) :=
  match packageDirectory? h package with
  | none => .ok none
  | some dir => do
    let p := (⟨.slash, dir⟩ : Path).join (Path.ofText name)
    match h.files.leadsToFile h.cwd p with
    | .error f => .error (.system f p.text)
    | .ok false => .ok none
    | .ok true => return some (← h.realPath p).uri

mutual

/-- The URL that a name has in a lookup. -/
def get? (h : Host) (name : String) : Lookup → Except Failure (Option String)
  | search roots => if isRelativeName name then searchFor h name roots else .ok none
  | package p => if isRelativeName name then packageFile h p name else .ok none
  | chain lookups => getFirst? h name lookups
  | table urls => .ok (urls.lookup name)

/-- The URL that a name has in the first lookup that knows it. -/
def getFirst? (h : Host) (name : String) : List Lookup → Except Failure (Option String)
  | [] => .ok none
  | l :: ls =>
    match get? h name l with
    | .ok none => getFirst? h name ls
    | r => r

end

/-- The bytes at the path of a URL, or nothing where the system refuses to read them. -/
def bytesAt (h : Host) (url : String) : Except Failure (Option Bytes) := do
  let path ← (Address.file h.here url).mapError fun m => Failure.invalid m.message
  match h.fileBytes path with
  | .ok bs => return some bs
  | .error (.system _ _) => return none
  | .error f => .error f

/-- The bytes of what a name is in a lookup that is not a chain. -/
def openOne (h : Host) (name : String) (l : Lookup) : Except Failure (Option Bytes) := do
  match ← get? h name l with
  | none => return none
  | some url => bytesAt h url

mutual

/-- The bytes of what a name is in a lookup. -/
def open? (h : Host) (name : String) : Lookup → Except Failure (Option Bytes)
  | chain lookups => openFirst? h name lookups
  | search roots => openOne h name (search roots)
  | package p => openOne h name (package p)
  | table urls => openOne h name (table urls)

/-- The bytes of what a name is in the first lookup that can open it. -/
def openFirst? (h : Host) (name : String) : List Lookup → Except Failure (Option Bytes)
  | [] => .ok none
  | l :: ls =>
    match open? h name l with
    | .ok none => openFirst? h name ls
    | r => r

end

/-- The directories of a search path in which an empty entry stands for the working directory. -/
def searchPath (entries : List String) : List String := entries.map fun e => if e.isEmpty then "." else e

end Lookup

end ScriptLoader
