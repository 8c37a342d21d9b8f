import ScriptLoader.Files.Walk

/-!
# Real paths

The path of a file without links and without `..`. Links are followed name by name; a name that is not there, or cannot be, is kept
as it is, and `..` goes back behind what has been followed so far. Where a link leads to itself the rest is left as it is.
-/

namespace ScriptLoader.Files

open Text

/-- Names that have been followed: to the end, or only until a link that leads to itself. -/
structure Followed where
  names : List String
  complete : Bool
  deriving DecidableEq, Repr

namespace FileSystem

/-- The link that stands at a location, if one does and the location can be looked at. -/
def linkAt? (fs : FileSystem) (loc : Location) : Option String :=
  match fs.walk false maxLinks [] loc with
  | .ok l =>
    match fs.node? l with
    | some (.link target) => some target
    | _ => none
  | .error _ => none

/-- Follows names from the location `here`; `active` holds the links that are being followed, and `depth` bounds their number. -/
def followNames (fs : FileSystem) (depth : Nat) (active : List Location) (here : Location) (names : List String) : Followed :=
  match names with
  | [] => ⟨here, true⟩
  | n :: ns =>
    if n = "." then fs.followNames depth active here ns
    else if n = ".." then fs.followNames depth active here.dropLast ns
    else
      match fs.linkAt? (here ++ [n]) with
      | none => fs.followNames depth active (here ++ [n]) ns
      | some target =>
        if active.contains (here ++ [n]) then ⟨here ++ n :: ns, false⟩
        else
          match depth with
          | 0 => ⟨here ++ n :: ns, false⟩
          | depth + 1 =>
            let target := fs.followNames depth ((here ++ [n]) :: active) (targetStart target here) (targetNames target)
            if target.complete then fs.followNames (depth + 1) active target.names ns
            else ⟨target.names ++ ns, false⟩
termination_by (depth, names.length)

/-- The names of the real path of the names from the root. What could not be followed is brought into normal form as it is
written. -/
def realNames (fs : FileSystem) (names : List String) : List String :=
  Path.dropParents true [] ((fs.followNames fs.nodes.length [] [] names).names.filter (· ≠ "."))

end FileSystem

/-- Why a path has no real path. -/
inductive RealPathFault where
  | linkLoop (path : String)
  | nulCharacter
  deriving DecidableEq, Repr

/-- The real path of `p`, seen from the working directory. There must be no loop of links in it. -/
def FileSystem.realPath (fs : FileSystem) (cwd : Location) (p : Path) : Except RealPathFault Location :=
  if p.names.any (·.toList.contains '\x00') then .error .nulCharacter
  else
    let real := fs.realNames (((⟨.slash, cwd⟩ : Path).join p).names)
    match fs.locate true [] ⟨.slash, real⟩ with
    | .error (.system .tooManyLinks) => .error (.linkLoop (Path.text ⟨.slash, real⟩))
    | _ => .ok real

end ScriptLoader.Files
