import ScriptLoader.Process.Arguments
import ScriptLoader.Process.Marked
import ScriptLoader.Process.Routine
import ScriptLoader.Text.Blank
import ScriptLoader.Text.Width

/-!
# Counts of files

The program `wc` counts the lines, words, characters and bytes of files, and the columns of the longest line. A word is a stretch
without blanks in which something can be printed; bytes that are no character are in no word and are counted as bytes only.
-/

namespace ScriptLoader.Program.Counting

open Routine Text

/-- Its name. -/
def name : Raw := "wc"

/-- Its options. -/
def options : OptionTable where
  letters := "clLmw".toList.map fun c => (c, false)
  words := [⟨"bytes", false, 'c'⟩, ⟨"chars", false, 'm'⟩, ⟨"lines", false, 'l'⟩, ⟨"words", false, 'w'⟩, ⟨"files0-from", true, 'F'⟩,
    ⟨"max-line-length", false, 'L'⟩]
  ordered := false

/-- The counts of a file. -/
structure Counts where
  lines : Nat
  words : Nat
  characters : Nat
  bytes : Nat
  columns : Nat
  deriving DecidableEq, Repr

namespace Counts

/-- Nothing is counted. -/
def zero : Counts := ⟨0, 0, 0, 0, 0⟩

/-- The counts of two files together. -/
def add (a b : Counts) : Counts :=
  ⟨a.lines + b.lines, a.words + b.words, a.characters + b.characters, a.bytes + b.bytes, max a.columns b.columns⟩

/-- The counts that letters ask for, always in the same order. -/
def chosen (letters : List Char) (c : Counts) : List Nat :=
  [('l', c.lines), ('w', c.words), ('m', c.characters), ('c', c.bytes), ('L', c.columns)].filterMap fun e =>
    if letters.contains e.1 then some e.2 else none

end Counts

/-- The state of a count: what is counted so far, whether it stands in a word, and the columns of the line so far. -/
structure State where
  counts : Counts
  inWord : Bool
  column : Nat
  deriving DecidableEq, Repr

namespace State

/-- Before the first character. -/
def start : State := ⟨.zero, false, 0⟩

/-- Behind a blank. -/
def endWord (s : State) : State :=
  { s with counts := { s.counts with words := s.counts.words + (if s.inWord then 1 else 0) }, inWord := false }

/-- Behind the end of a line. -/
def endLine (s : State) : State :=
  { s with counts := { s.counts with columns := max s.counts.columns s.column }, column := 0 }

/-- A printable blank, also one that holds the words beside it together. -/
def isGap (c : Char) : Bool := isBlank c || c = '\u2060'

/-- Behind a character. -/
def step (s : State) (c : Char) : State :=
  let s := { s with counts := { s.counts with characters := s.counts.characters + 1 } }
  if c = '\n' then { s with counts := { s.counts with lines := s.counts.lines + 1 } }.endLine.endWord
  else if c = '\r' || c = '\x0c' then s.endLine.endWord
  else if c = '\t' then { s with column := s.column + (8 - s.column % 8) }.endWord
  else if c = '\x0b' then s.endWord
  else if !isDisplayed c then s
  else
    let s := { s with column := s.column + width c }
    if isGap c then s.endWord else { s with inWord := true }

/-- The counts at the end. -/
def finish (s : State) : Counts := s.endLine.endWord.counts

end State

/-- The characters among bytes. -/
def charactersOf (bs : Bytes) : List Char :=
  match bs with
  | [] => []
  | b :: bs =>
    have : (Utf8.head b bs).2.length ≤ bs.length := Utf8.length_head_le b bs
    let rest := charactersOf (Utf8.head b bs).2
    match (Utf8.head b bs).1 with
    | some c => c :: rest
    | none => rest
termination_by bs.length
decreasing_by simp only [List.length_cons]; omega

/-- The counts of a text. -/
def countsOf (cs : Raw) : Counts :=
  { ((charactersOf (Raw.toBytes cs)).foldl State.step State.start).finish with bytes := cs.length, lines := cs.count '\n' }

/-- The line of some counts, in columns of a width. -/
def line (letters : List Char) (width : Nat) (c : Counts) (file : Option Raw) : Raw :=
  let columns := (c.chosen letters).map fun n =>
    let digits := Raw.ofNat n
    List.replicate (width - digits.length) ' ' ++ digits
  let shown (f : Raw) : Raw := if f.contains '\n' then Marked.shellWord f else f
  Raw.join [' '] columns ++ (match file with
    | some f => ' ' :: shown f
    | none => []) ++ ['\n']

/-- What the width of the columns depends on: the size of a file that is one, or that there is something else. -/
inductive Extent where
  | file (size : Nat)
  | other
  | missing
  deriving DecidableEq, Repr

/-- The extent of what an operand names. -/
def extent (p : Process) (file : Raw) : Extent :=
  let ofTarget (t : Target) : Extent := match t with
    | .file loc => .file (p.machine.content loc).length
    | _ => .other
  if file = ['-'] then
    match (p.descriptors.lookup input).bind fun id => p.machine.opened[id]? with
    | some f => ofTarget f.target
    | none => .missing
  else
    match p.machine.openNamed p.cwd p.descriptors .read file with
    | .ok (id, m) =>
      match m.opened[id]? with
      | some f => ofTarget f.target
      | none => .missing
    | .error _ => .missing

/-- The width of the columns: one that all sizes fit into, but at least seven if something is no file. One count of one file needs
none. -/
def widthFor (letters : List Char) (extents : List Extent) : Nat :=
  if letters.length = 1 && extents.length ≤ 1 then 1
  else
    let total := extents.foldl (fun n e => match e with
      | .file size => n + size
      | _ => n) 0
    max (Raw.ofNat total).length (if extents.contains .other then 7 else 1)

/-- Counts an open file and writes its line. The result is its counts, whether all went well, and whether the output
arrived. -/
def countOpen (letters : List Char) (width : Nat) (file : Option Raw) (id : Nat) : Routine (Counts × Bool × Bool) := do
  let (counts, well) ←
    match ← readAll id with
    | .error f => do
      complainAs name ((match file with
        | some f => Marked.shellWord f
        | none => "'standard input'") ++ ": " ++ f.words)
      pure (Counts.zero, false)
    | .ok cs => pure (countsOf cs, true)
  return (counts, well, ← print (line letters width counts file))

/-- The names in a list of files; a null character ends each of them, and may be missing behind the last. -/
def namesIn (cs : Raw) : List Raw :=
  match cs with
  | [] => []
  | c :: cs =>
    if c = '\x00' then [] :: namesIn cs
    else match namesIn cs with
      | [] => [[c]]
      | file :: files => (c :: file) :: files

/-- Why a name cannot be counted; it is the `n`th of the operands or of a list. -/
def objection? (list : Option Raw) (n : Nat) (file : Raw) : Option Raw :=
  if file.isEmpty then
    some ((match list with
      | some list => Marked.shellWord list ++ ':' :: (Raw.ofNat n ++ [':', ' '])
      | none => []) ++ Raw.ofString "invalid zero-length file name")
  else if file = ['-'] && list = some ['-'] then
    some "when reading file names from stdin, no file name of '-' allowed"
  else none

/-- Counts files, which are the operands or stand in a list, from the `n`th on. The result is the counts of all together, whether all
went well, and whether the output arrived. -/
def countAll (letters : List Char) (width : Nat) (list : Option Raw) (n : Nat) : List Raw → Routine (Counts × Bool × Bool)
  | [] => return (.zero, true, true)
  | file :: files => do
    match objection? list n file with
    | some message => do
      complainAs name message
      let (total, _, arrived) ← countAll letters width list (n + 1) files
      return (total, false, arrived)
    | none => do
      let source ←
        if file = ['-'] then do pure (.ok (← opened input))
        else openNamed .read file
      match source with
      | .ok id => do
        let (counts, well, written) ← countOpen letters width (some file) id
        let (total, rest, arrived) ← countAll letters width list (n + 1) files
        return (counts.add total, well && rest, written && arrived)
      | .error f => do
        complainAs name (Marked.shellWord file ++ ": " ++ f.words)
        let (total, _, arrived) ← countAll letters width list (n + 1) files
        return (total, false, arrived)

/-- Counts files and all of them together, if they are more than one. The result is the status. -/
def countTogether (letters : List Char) (width : Nat) (list : Option Raw) (files : List Raw) : Routine Nat := do
  let (total, well, written) ← countAll letters width list 1 files
  let arrived ← if 1 < files.length then print (line letters width total (some "total")) else pure true
  settle name (if files.contains ['-'] && list ≠ some ['-'] then some ['-'] else none) well (written && arrived)

/-- Counts the files whose names stand in a list. -/
def countListed (letters : List Char) (list : Raw) : Routine Nat := do
  let kind := extent (← get) list
  let source ←
    if list = ['-'] then do pure (.ok (← opened input))
    else openNamed .read list
  match source with
  | .error f =>
    complainAs name ("cannot open " ++ Marked.closed list ++ " for reading: " ++ f.words)
    return 1
  | .ok id =>
    match ← readAll id with
    | .error f =>
      complainAs name (Marked.shellWord list ++ ": read error: " ++ f.words)
      return 1
    | .ok cs =>
      let files := namesIn cs
      let here ← get
      countTogether letters (if kind matches .file _ then widthFor letters (files.map (extent here)) else 1) (some list) files

/-- The program. -/
def run (args : List Raw) : Routine Nat := do
  let a := options.read args
  match a.fault with
  | some f =>
    complainOfUse name f.message
    return 1
  | none =>
    let given := (a.given.map (·.1)).filter (· ≠ 'F')
    let letters := if given.isEmpty then ['l', 'w', 'c'] else given.eraseDups
    match a.last? ['F'], a.operands with
    | none, [] => do
      let (_, well, written) ← countOpen letters (widthFor letters [extent (← get) ['-']]) none (← opened input)
      settle name (some ['-']) well written
    | none, files => do countTogether letters (widthFor letters (files.map (extent (← get)))) none files
    | some (_, list), [] => countListed letters list
    | some _, file :: _ => do
      complainAs name ("extra operand " ++ Marked.closed file)
      complain "file operands cannot be combined with --files0-from"
      complain ("Try '" ++ name ++ " --help' for more information.")
      return 1

end ScriptLoader.Program.Counting
