import ScriptLoader.Files.Walk

/-!
# Reading and writing files

What programs do with files: read one, write one, make directories, move a file into the place of another, and take one away. Every
operation names its file by a path and either does all of its work or refuses and changes nothing.
-/

namespace ScriptLoader.Files

namespace FileSystem

/-- The node that a path leads to. -/
def stat (fs : FileSystem) (cwd : Location) (p : Path) : Except PathFault Node := do
  let loc ← fs.locate true cwd p
  match fs.node? loc with
  | some n => .ok n
  | none => .error (.system .notFound)

/-- The path leads to a directory. -/
def leadsToDirectory (fs : FileSystem) (cwd : Location) (p : Path) : Bool :=
  match fs.stat cwd p with
  | .ok .directory => true
  | _ => false

/-- The path leads to a regular file. The answer is no where the system does not find one, whatever the reason, except that a name
may be too long to ask. -/
def leadsToFile (fs : FileSystem) (cwd : Location) (p : Path) : Except Fault Bool :=
  match fs.stat cwd p with
  | .ok (.file _) => .ok true
  | .ok _ => .ok false
  | .error (.system .nameTooLong) => .error .nameTooLong
  | .error _ => .ok false

/-- Reads a file. -/
def read (fs : FileSystem) (cwd : Location) (p : Path) : Except PathFault Bytes := do
  match ← fs.stat cwd p with
  | .file bs => .ok bs
  | .directory => .error (.system .isDirectory)
  | .link _ => .error (.system .tooManyLinks)

/-- Writes a file, in the place of the one that is there. -/
def write (fs : FileSystem) (cwd : Location) (p : Path) (bs : Bytes) : Except PathFault FileSystem := do
  let loc ← fs.locate true cwd p
  match fs.node? loc with
  | some .directory => .error (.system .isDirectory)
  | _ => .ok (fs.set loc (.file bs))

/-- Makes a directory, whose parent must be there. -/
def makeDirectory (fs : FileSystem) (cwd : Location) (p : Path) : Except PathFault FileSystem := do
  let loc ← fs.locate false cwd p
  match fs.node? loc with
  | some _ => .error (.system .alreadyExists)
  | none => .ok (fs.set loc .directory)

/-- Makes a directory, unless it is there. -/
def ensureDirectory (fs : FileSystem) (cwd : Location) (p : Path) : Except PathFault FileSystem :=
  match fs.makeDirectory cwd p with
  | .ok fs => .ok fs
  | .error f => if fs.leadsToDirectory cwd p then .ok fs else .error f

/-- Makes a directory with all directories above it that are missing. What has been made stays when the rest is refused, so the
result is the file system with the refusal beside it. -/
def ensureDirectories (fs : FileSystem) (cwd : Location) (p : Path) : FileSystem × Option PathFault :=
  match fs.makeDirectory cwd p with
  | .ok fs => (fs, none)
  | .error (.system .notFound) =>
    if p.names.isEmpty then (fs, some (.system .notFound))
    else
      match fs.ensureDirectories cwd p.parent with
      | (fs, some f) => (fs, some f)
      | (fs, none) =>
        match fs.ensureDirectory cwd p with
        | .ok fs => (fs, none)
        | .error f => (fs, some f)
  | .error f => (fs, if fs.leadsToDirectory cwd p then none else some f)
termination_by p.names.length
decreasing_by
  rename_i h
  have : p.names ≠ [] := by intro hp; exact h (by simp [hp])
  have := List.length_pos_iff.2 this
  simp only [Path.parent, List.length_dropLast]
  omega

/-- Takes a file or a link away. -/
def unlink (fs : FileSystem) (cwd : Location) (p : Path) : Except PathFault FileSystem := do
  let loc ← fs.locate false cwd p
  match fs.node? loc with
  | none => .error (.system .notFound)
  | some .directory => .error (.system .isDirectory)
  | some _ => .ok (fs.remove loc)

/-- Moves the file at the location `source` into the place of what is at `p`, which must not be a directory. -/
def replace (fs : FileSystem) (cwd : Location) (source : Location) (p : Path) : Except PathFault FileSystem := do
  let loc ← fs.locate false cwd p
  match fs.node? loc, fs.node? source with
  | some .directory, _ => .error (.system .isDirectory)
  | _, none => .error (.system .notFound)
  | _, some n => .ok ((fs.remove source).set loc n)

end FileSystem

end ScriptLoader.Files
