import ScriptLoader.Files.System
import ScriptLoader.Path
import ScriptLoader.Text.Lower

/-!
# Walking to a file

How the system finds the node that a path means. Every name but the last must be a directory or a link that leads to one; a link is
followed by walking its target from where the link stands, at most `maxLinks` times on the way. The walk ends at a location where
there may be nothing yet, so that a file can be made there.
-/

namespace ScriptLoader.Files

open Text

/-- How many links a walk may follow. -/
def maxLinks : Nat := 40

/-- How many bytes a name may have. -/
def maxName : Nat := 255

/-- How many bytes a path may have. -/
def maxPath : Nat := 4095

/-- The names of a target: one that ends in a slash must be a directory. -/
def targetNames (target : String) : List String :=
  let names := (fields '/' target).filter (· ≠ "")
  if endsWith target "/" then names ++ ["."] else names

/-- Where a target is read: at the root, or in the directory that the link stands in. -/
def targetStart (target : String) (here : Location) : Location := if startsWith target "/" then [] else here

namespace FileSystem

/-- Walks along names from the directory `here`. A link at the end is followed only if `follow` says so. -/
def walk (fs : FileSystem) (follow : Bool) (links : Nat) (here : Location) (names : List String) : Except Fault Location :=
  match names with
  | [] => .ok here
  | n :: ns =>
    match fs.node? here with
    | none => .error .notFound
    | some (.file _) => .error .notDirectory
    | some (.link _) => .error .notDirectory
    | some .directory =>
      if n = "." then fs.walk follow links here ns
      else if n = ".." then fs.walk follow links here.dropLast ns
      else if maxName < n.utf8ByteSize then .error .nameTooLong
      else
        match fs.node? (here ++ [n]) with
        | none => if ns.isEmpty then .ok (here ++ [n]) else .error .notFound
        | some (.link target) =>
          if ns.isEmpty && !follow then .ok (here ++ [n])
          else
            match links with
            | 0 => .error .tooManyLinks
            | links + 1 => fs.walk follow links (targetStart target here) (targetNames target ++ ns)
        | some _ => fs.walk follow links (here ++ [n]) ns
termination_by (links, names.length)

end FileSystem

/-- Why a path leads nowhere: the system refuses it, or it holds a character that no path can hold. -/
inductive PathFault where
  | system (f : Fault)
  | nulCharacter
  deriving DecidableEq, Repr

/-- The report of a path with a character that no path can hold. -/
def nulReport : String := "embedded null byte"

/-- The location that a path means when the working directory is `cwd`. -/
def FileSystem.locate (fs : FileSystem) (follow : Bool) (cwd : Location) (p : Path) : Except PathFault Location :=
  if p.names.any (·.toList.contains '\x00') then .error .nulCharacter
  else if maxPath < p.text.utf8ByteSize then .error (.system .nameTooLong)
  else (fs.walk follow maxLinks (if p.isAbsolute then [] else cwd) p.names).mapError .system

end ScriptLoader.Files
