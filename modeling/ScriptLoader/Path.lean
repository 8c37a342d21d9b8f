import ScriptLoader.Text.Fields
import ScriptLoader.Uri.Percent

/-!
# Paths

Names of files as text and as values. A path is its root and the names below it; empty names and `.` are dropped when a path is read,
and `..` is kept, because it means something else behind a link. `normalized` takes `..` out as if there were no links.
-/

namespace ScriptLoader

open Text

/-- Where a path starts: at the working directory or at the root, which may be written with two slashes. -/
inductive Root where
  | relative
  | slash
  | doubleSlash
  deriving DecidableEq, Repr

/-- A path. -/
structure Path where
  root : Root
  names : List String
  deriving DecidableEq, Repr

namespace Root

/-- How a root is written. -/
def text : Root → String
  | relative => ""
  | slash => "/"
  | doubleSlash => "//"

/-- The root that a path is written with: exactly two slashes are kept, and three or more are one. -/
def ofChars : List Char → Root
  | '/' :: '/' :: '/' :: _ => slash
  | '/' :: '/' :: _ => doubleSlash
  | '/' :: _ => slash
  | _ => relative

end Root

namespace Path

/-- The names of a path as it is written. -/
def namesOf (s : String) : List String := (fields '/' s).filter fun n => n ≠ "" && n ≠ "."

/-- The path that is written as `s`. -/
def ofText (s : String) : Path := ⟨Root.ofChars s.toList, namesOf s⟩

/-- The path starts at the root. -/
def isAbsolute (p : Path) : Bool := p.root ≠ .relative

/-- How a path is written. -/
def text (p : Path) : String :=
  let s := p.root.text ++ joinFields '/' p.names
  if s.isEmpty then "." else s

/-- The path `q` read at the directory `p`. -/
def join (p q : Path) : Path := if q.isAbsolute then q else ⟨p.root, p.names ++ q.names⟩

/-- The path without its last name. -/
def parent (p : Path) : Path := ⟨p.root, p.names.dropLast⟩

/-- Drops `..` with the name before it; `above` holds the names before, nearest first. At the root there is nothing above. -/
def dropParents (absolute : Bool) (above : List String) : List String → List String
  | [] => above.reverse
  | n :: ns =>
    if n = ".." then
      match above with
      | [] => dropParents absolute (if absolute then [] else [".."]) ns
      | m :: ms => if m = ".." then dropParents absolute (".." :: m :: ms) ns else dropParents absolute ms ns
    else dropParents absolute (n :: above) ns

/-- The path without `..`, as if no name were a link. -/
def normalized (p : Path) : Path := ⟨p.root, dropParents p.isAbsolute [] p.names⟩

/-- The path as seen from the root, read at the directory `cwd`. -/
def absolute (cwd p : Path) : Path := (cwd.join p).normalized

/-- The name has an ending: a point that is not among the points at its front. -/
def hasEnding (s : String) : Bool :=
  let name := (s.toList.reverse.takeWhile (· ≠ '/')).reverse
  (name.dropWhile (· = '.')).contains '.'

/-- The URI of a file. -/
def uri (p : Path) : String := "file://" ++ String.ofList (Uri.escape (Utf8.encode p.text.toList))

end Path

end ScriptLoader
