import ScriptLoader.Shell.Builtin.Options
import ScriptLoader.Shell.Grammar
import ScriptLoader.Shell.Programs

/-!
# Builtin commands on places

The working directory, and where commands are.
-/

namespace ScriptLoader.Shell

namespace Builtin

open Act Files

/-- The names of a path from the root, read without looking at files. -/
def plainNames (names : List Raw) (path : Raw) : List Raw :=
  let parts := (path.splitBy fun a b => a ≠ '/' && b ≠ '/').filter (·.head? ≠ some '/')
  parts.foldl (fun names n => if n = ['.'] then names else if n = ['.', '.'] then names.dropLast else names ++ [n]) names

/-- The path with these names from the root. -/
def pathOf (names : List Raw) : Raw := '/' :: Raw.join ['/'] names

/-- The path that a name means in the directory `here`. -/
def pathFrom (here name : Raw) : Raw :=
  let path := pathOf (plainNames (if name.head? = some '/' then [] else plainNames [] here) name)
  match name with
  | '/' :: '/' :: c :: _ => if c = '/' then path else '/' :: path
  | _ => path

/-- Goes to a directory. -/
def goTo (name : Raw) (physical : Bool) : Act Unit := do
  let s ← get
  let name := if name.isEmpty then ['.'] else name
  let target := if physical then name else pathFrom s.here name
  let bad : Act Unit := fail ("can't cd to " ++ name)
  match s.process.machine.locate s.process.cwd target with
  | .error _ => bad
  | .ok loc =>
    if !s.process.machine.files.isDirectory loc then bad
    else
      let here := if physical then pathOf (loc.map Raw.ofString) else target
      set { s with process := { s.process with cwd := loc }, here }
      setVariable "OLDPWD" (some s.here) true false
      setVariable "PWD" (some here) true false

/-- The command `cd`. -/
def cd : Builtin := fun words => do
  let (given, words) ← options ['L', 'P'] words
  let physical := (given.getLast?).map (·.1) = some 'P'
  let s ← get
  match words with
  | [] =>
    goTo ((s.value? "HOME".toList).getD []) physical
    return (0, [])
  | ['-'] :: _ =>
    goTo ((s.value? "OLDPWD".toList).getD []) physical
    return (0, (← get).here ++ ['\n'])
  | name :: _ =>
    goTo name physical
    return (0, [])

/-- The command `pwd`. -/
def pwd : Builtin := fun words => do
  let (given, _) ← options ['L', 'P'] words
  let s ← get
  let physical := (given.getLast?).map (·.1) = some 'P'
  return (0, (if physical then pathOf (s.process.cwd.map Raw.ofString) else s.here) ++ ['\n'])

/-- What a name of a command means; `builtins` tells whether a name is built in, and for good. -/
def describe (builtins : Raw → Option Bool) (verbose : Bool) (name : Raw) : Act (Nat × Raw) := do
  let s ← get
  let line (long short : Raw) : Raw := (if verbose then name ++ long else short) ++ ['\n']
  if (Keyword.ofText? name).isSome then return (0, line " is a shell keyword" name)
  if (s.functions.lookup name).isSome then return (0, line " is a shell function" name)
  match builtins name with
  | some special => return (0, line (if special then " is a special shell builtin" else " is a shell builtin") name)
  | none =>
    let exists? (path : Raw) : Bool := (programAt? path).isSome || (s.process.machine.node? s.process.cwd path).toBool
    match (s.find s.path name).toOption.filter exists? with
    | none => return (127, if verbose then name ++ ": not found\n" else [])
    | some path =>
      let known := s.found.contains name
      if !name.contains '/' then set { s with found := name :: s.found }
      return (0, line ((if known then " is a tracked alias for " else " is ") ++ path) path)

/-- The command `type`. -/
def typeCommand (builtins : Raw → Option Bool) : Builtin
  | [] => return (0, [])
  | name :: names => do
    let (status, text) ← describe builtins true name
    let (last, rest) ← typeCommand builtins names
    return (max status last, text ++ rest)

/-- The command `hash`. -/
def hash : Builtin := fun words => do
  let (given, words) ← options "rv".toList words
  let s ← get
  if !given.isEmpty then
    set { s with found := [] }
    return (0, [])
  if words.isEmpty then
    return (0, s.found.reverse.flatMap fun n => ((s.find s.path n).toOption.getD n) ++ ['\n'])
  let missing := words.filter fun w => !(s.find s.path w).toBool
  missing.forM fun w => warn (w ++ ": not found")
  return (if missing.isEmpty then 0 else 1, [])

end Builtin

end ScriptLoader.Shell
