import ScriptLoader.Text.Quoted
import ScriptLoader.Text.Utf8

/-!
# The file system

A file system is a table from locations to nodes. A location is the list of names from the root; the root itself is always a
directory. The table is read and changed one location at a time: `node?_set` and `node?_remove` say what a change does.
-/

namespace ScriptLoader.Files

/-- The names from the root to a node. -/
abbrev Location := List String

/-- What is at a location. -/
inductive Node where
  | file (content : Bytes)
  | directory
  | link (target : String)
  deriving DecidableEq, Repr

/-- Why the system refuses an operation on a file. -/
inductive Fault where
  | notFound
  | badDescriptor
  | permissionDenied
  | notDirectory
  | isDirectory
  | alreadyExists
  | nameTooLong
  | tooManyLinks
  deriving DecidableEq, Repr

namespace Fault

/-- The number of a fault. -/
def number : Fault → Nat
  | notFound => 2
  | badDescriptor => 9
  | permissionDenied => 13
  | alreadyExists => 17
  | notDirectory => 20
  | isDirectory => 21
  | nameTooLong => 36
  | tooManyLinks => 40

/-- The words for a fault. -/
def words : Fault → String
  | notFound => "No such file or directory"
  | badDescriptor => "Bad file descriptor"
  | permissionDenied => "Permission denied"
  | alreadyExists => "File exists"
  | notDirectory => "Not a directory"
  | isDirectory => "Is a directory"
  | nameTooLong => "File name too long"
  | tooManyLinks => "Too many levels of symbolic links"

/-- The report of a fault at a path. -/
def report (f : Fault) (path : String) : String :=
  "[Errno " ++ toString f.number ++ "] " ++ f.words ++ ": " ++ Text.quoted path

end Fault

/-- A file system. -/
structure FileSystem where
  nodes : List (Location × Node)
  deriving DecidableEq, Repr

namespace FileSystem

/-- A file system that holds nothing. -/
def empty : FileSystem := ⟨[]⟩

/-- What is at a location. -/
def node? (fs : FileSystem) (loc : Location) : Option Node :=
  if loc = [] then some .directory else fs.nodes.lookup loc

/-- Puts a node at a location. -/
def set (fs : FileSystem) (loc : Location) (n : Node) : FileSystem :=
  ⟨(loc, n) :: fs.nodes.filter fun e => !(e.1 == loc)⟩

/-- Takes away what is at a location. -/
def remove (fs : FileSystem) (loc : Location) : FileSystem := ⟨fs.nodes.filter fun e => !(e.1 == loc)⟩

/-- The names in a directory. -/
def children (fs : FileSystem) (loc : Location) : List String :=
  fs.nodes.filterMap fun e => if e.1.dropLast = loc then e.1.getLast? else none

/-- What a regular file holds. -/
def content? (fs : FileSystem) (loc : Location) : Option Bytes :=
  match fs.node? loc with
  | some (.file bs) => some bs
  | _ => none

/-- There is a directory at the location. -/
def isDirectory (fs : FileSystem) (loc : Location) : Bool :=
  match fs.node? loc with
  | some .directory => true
  | _ => false

/-- The files of `after` that are not in `before`, or hold something else there. -/
def changes (before after : FileSystem) : List (Location × Bytes) :=
  after.nodes.filterMap fun e =>
    match e.2 with
    | .file bs => if before.content? e.1 = some bs then none else some (e.1, bs)
    | _ => none

theorem lookup_filter_ne (nodes : List (Location × Node)) {loc other : Location} (h : other ≠ loc) :
    (nodes.filter fun e => !(e.1 == loc)).lookup other = nodes.lookup other := by
  induction nodes with
  | nil => rfl
  | cons e es ih =>
    rcases e with ⟨l, n⟩
    by_cases hl : l = loc
    · subst hl
      have : (other == l) = false := by simp [h]
      simp [ih, List.lookup_cons, this]
    · have : (l == loc) = false := by simp [hl]
      simp [List.lookup_cons, ih, this]

theorem lookup_filter_self (nodes : List (Location × Node)) (loc : Location) :
    (nodes.filter fun e => !(e.1 == loc)).lookup loc = none := by
  induction nodes with
  | nil => rfl
  | cons e es ih =>
    rcases e with ⟨l, n⟩
    by_cases hl : l = loc
    · subst hl
      simp [ih]
    · have : (loc == l) = false := by simp [Ne.symm hl]
      simp [hl, List.lookup_cons, ih, this]

theorem node?_set {fs : FileSystem} {loc : Location} (n : Node) (h : loc ≠ []) (other : Location) :
    (fs.set loc n).node? other = if other = loc then some n else fs.node? other := by
  by_cases ho : other = loc
  · subst ho
    simp [node?, set, h]
  · simp only [node?, set, List.lookup_cons, ho, if_false]
    split
    · rfl
    · have : (other == loc) = false := by simp [ho]
      rw [this]
      exact lookup_filter_ne _ ho

theorem node?_remove {fs : FileSystem} {loc : Location} (h : loc ≠ []) (other : Location) :
    (fs.remove loc).node? other = if other = loc then none else fs.node? other := by
  by_cases ho : other = loc
  · subst ho
    simp [node?, remove, h, lookup_filter_self]
  · simp only [node?, remove, ho, if_false]
    split
    · rfl
    · exact lookup_filter_ne _ ho

end FileSystem

end ScriptLoader.Files
