import ScriptLoader.Process.Machine
import ScriptLoader.Shell.Pattern

/-!
# Pathnames

A field that holds a pattern stands for the names of files that match it, in the order of their bytes. A pattern is matched name by name;
a name that begins with a point is matched only by a pattern that begins with one.
-/

namespace ScriptLoader.Shell

open Files

/-- The texts between slashes. -/
def components (gs : List Glyph) : List (List Glyph) :=
  match gs with
  | [] => [[]]
  | g :: gs =>
    match components gs with
    | [] => [[g]]
    | c :: cs => if g.char = '/' then [] :: c :: cs else (g :: c) :: cs

/-- The pattern matches more than one text. -/
def isOpen (gs : List Glyph) : Bool :=
  (pattern gs).any fun i =>
    match i with
    | .exactly _ => false
    | _ => true

/-- The text of a pattern that matches one text. -/
def onlyText (gs : List Glyph) : Raw :=
  (pattern gs).filterMap fun i =>
    match i with
    | .exactly c => some c
    | _ => none

/-- The names in a directory that a pattern matches. -/
def matchingNames (m : Machine) (dir : Location) (gs : List Glyph) : List Raw :=
  let hidden := (gs.head?).any (·.char = '.')
  let all := (if hidden then ["."] ++ [".."] else []) ++ m.files.children dir
  (all.map Raw.ofString).filter fun n => (hidden || n.head? ≠ some '.') && matchesPattern gs n

/-- The names of files that match the components of a pattern behind the text `front`. -/
def matchingPaths (m : Machine) (cwd : Location) (front : Raw) : List (List Glyph) → List Raw
  | [] => []
  | c :: rest =>
    let here (name : Raw) : Option Raw :=
      let path := front ++ name
      match m.node? cwd (if path.isEmpty then ['.'] else path) with
      | .ok _ => some path
      | .error _ => none
    let names :=
      if !isOpen c then [onlyText c]
      else
        match m.locate cwd (if front.isEmpty then ['.'] else front) with
        | .ok dir => if m.files.isDirectory dir then matchingNames m dir c else []
        | .error _ => []
    if rest.isEmpty then names.filterMap here
    else names.flatMap fun n => matchingPaths m cwd (front ++ n ++ ['/']) rest

/-- The names that a field with a pattern stands for; there are none if it holds no pattern. -/
def pathnames (m : Machine) (cwd : Location) (gs : List Glyph) : List Raw :=
  if !(components gs).any isOpen then [] else (matchingPaths m cwd [] (components gs)).mergeSort Raw.isAtMost

end ScriptLoader.Shell
