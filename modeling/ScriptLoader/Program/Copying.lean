import ScriptLoader.Process.Arguments
import ScriptLoader.Process.Marked
import ScriptLoader.Process.Routine

/-!
# Copying files

The program `cat` writes files one after the other, perhaps with the lines numbered, with empty lines in a row as one, or with the
characters that leave no mark made visible. Numbers and empty lines are counted through all files.
-/

namespace ScriptLoader.Program.Copying

open Routine

/-- Its name. -/
def name : Raw := "cat"

/-- Its options. -/
def options : OptionTable where
  letters := ("AbeEnstTuv".toList).map fun c => (c, false)
  words := [⟨"number-nonblank", false, 'b'⟩, ⟨"number", false, 'n'⟩, ⟨"squeeze-blank", false, 's'⟩,
    ⟨"show-nonprinting", false, 'v'⟩, ⟨"show-ends", false, 'E'⟩, ⟨"show-tabs", false, 'T'⟩, ⟨"show-all", false, 'A'⟩]
  ordered := false

/-- What is done to the lines. -/
structure Style where
  numbered : Bool
  onlyFilled : Bool
  squeezed : Bool
  visible : Bool
  ends : Bool
  tabs : Bool
  deriving DecidableEq, Repr

/-- The style that arguments ask for. -/
def Style.ofArguments (a : Arguments) : Style :=
  let any (letters : String) : Bool := letters.toList.any a.has
  ⟨any "bn", any "b", any "s", any "Aetv", any "AeE", any "AtT"⟩

/-- Nothing is done to the lines. -/
def Style.isPlain (s : Style) : Bool := s = ⟨false, false, false, false, false, false⟩

/-- Where the writer is: inside a line, or at the beginning of one behind so many empty lines, of which at most two are counted. -/
inductive Place where
  | inside
  | fresh (empties : Nat)
  deriving DecidableEq, Repr

/-- What the writer knows between two characters: its place, the number of the last line, and whether a carriage return is held back
because a line feed may follow. -/
structure State where
  place : Place
  number : Nat
  held : Bool
  deriving DecidableEq, Repr

/-- Before the first file. -/
def State.start : State := ⟨.fresh 0, 0, false⟩

/-- The number of a line, in a column of six. -/
def numeral (n : Nat) : Raw :=
  let digits := Raw.ofNat n
  List.replicate (6 - digits.length) ' ' ++ digits ++ ['\t']

/-- A character made visible. -/
def visibleChar (s : Style) (c : Char) : Raw :=
  let shown (n : Nat) : Raw := if n < 32 then ['^', Char.ofNat (n + 64)] else if n = 127 then ['^', '?'] else [Char.ofNat n]
  if c = '\t' then if s.tabs then ['^', 'I'] else [c]
  else if !s.visible then [c]
  else if c.toNat < 128 then shown c.toNat
  else 'M' :: '-' :: shown (c.toNat - 128)

/-- What is written for a line feed, and the state behind it. -/
def lineFeed (s : Style) (t : State) : Raw × State :=
  let ending : Raw := (if s.ends then (if t.held then ['^', 'M'] else []) ++ ['$'] else []) ++ ['\n']
  match t.place with
  | .inside => (ending, ⟨.fresh 0, t.number, false⟩)
  | .fresh n =>
    if 1 ≤ n && s.squeezed then ([], ⟨.fresh 2, t.number, t.held⟩)
    else if s.numbered && !s.onlyFilled then (numeral (t.number + 1) ++ ending, ⟨.fresh (n + 1), t.number + 1, false⟩)
    else (ending, ⟨.fresh (n + 1), t.number, false⟩)

/-- What is written for a character that is no line feed, and the state behind it. -/
def plainChar (s : Style) (t : State) (c : Char) : Raw × State :=
  let number := if t.place ≠ .inside && s.numbered then t.number + 1 else t.number
  let front := (if t.held then ['\r'] else []) ++ (if number ≠ t.number then numeral number else [])
  if c = '\r' && s.ends && !s.visible then (front, ⟨.inside, number, true⟩)
  else (front ++ visibleChar s c, ⟨.inside, number, false⟩)

/-- What is written for a text, and the state behind it. -/
def render (s : Style) (t : State) (cs : Raw) : Raw × State :=
  let (pieces, t) := cs.foldl (fun (pieces, t) c =>
    let (piece, t) := if c = '\n' then lineFeed s t else plainChar s t c
    (piece.reverse ++ pieces, t)) ([], t)
  (pieces.reverse, t)

/-- The output goes to the file that is read, which would never end. -/
def copiesToItself (p : Process) (id : Nat) : Bool :=
  let target? (id : Nat) : Option Target := (p.machine.opened[id]?).map (·.target)
  match target? id, (p.descriptors.lookup output).bind target? with
  | some (.file loc), some target => target = .file loc && 0 < p.machine.remaining id
  | _, _ => false

/-- What a copy has come to: the state behind it, whether all went well, and whether the output arrived. -/
structure Copied where
  state : State
  well : Bool
  written : Bool

/-- Copies an open file. -/
def copyOpen (s : Style) (t : State) (file : Raw) (id : Nat) : Routine Copied := do
  if copiesToItself (← get) id then
    complainAs name (Marked.shellWord file ++ ": input file is output file")
    return ⟨t, false, true⟩
  match ← readAll id with
  | .error f =>
    complainAs name (Marked.shellWord file ++ ": " ++ f.words)
    return ⟨t, false, true⟩
  | .ok cs =>
    let (text, t) := if s.isPlain then (cs, t) else render s t cs
    return ⟨t, true, ← print text⟩

/-- Copies files, up to the first whose output does not arrive. The result is whether all went well, and whether all output arrived. -/
def copyAll (s : Style) (t : State) : List Raw → Routine (Bool × Bool)
  | [] => return (true, ← print (if t.held then ['\r'] else []))
  | file :: files => do
    let source ← if file = ['-'] then do pure (.ok (← opened input)) else openNamed .read file
    match source with
    | .ok id => do
      let c ← copyOpen s t file id
      if !c.written then return (c.well, false)
      let (well, written) ← copyAll s c.state files
      return (c.well && well, written)
    | .error f => do
      complainAs name (Marked.shellWord file ++ ": " ++ f.words)
      let (_, written) ← copyAll s t files
      return (false, written)

/-- The program. -/
def run (args : List Raw) : Routine Nat := do
  let a := options.read args
  match a.fault with
  | some f =>
    complainOfUse name f.message
    return 1
  | none =>
    let files := if a.operands.isEmpty then [['-']] else a.operands
    if !(← isOpen output) then
      complainAs name ("standard output: " ++ Files.Fault.badDescriptor.words)
      return 1
    let (well, written) ← copyAll (.ofArguments a) .start files
    settle name (if files.contains ['-'] then some "closing standard input" else none) well written

end ScriptLoader.Program.Copying
