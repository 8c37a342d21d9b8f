import ScriptLoader.Process.Arguments
import ScriptLoader.Process.Marked
import ScriptLoader.Process.Routine
import ScriptLoader.Program.Quantity

/-!
# Heads of files

The program `head` writes the first lines or bytes of files, or all but the last ones. It reads no more bytes than it writes, but of
lines whole blocks.
-/

namespace ScriptLoader.Program.Heading

open Routine

/-- Its name. -/
def name : Raw := "head"

/-- Its options. -/
def options : OptionTable where
  letters := [('c', true), ('n', true), ('q', false), ('v', false), ('z', false)] ++ "0123456789".toList.map fun c => (c, false)
  words := [⟨"bytes", true, 'c'⟩, ⟨"lines", true, 'n'⟩, ⟨"quiet", false, 'q'⟩, ⟨"silent", false, 'q'⟩, ⟨"verbose", false, 'v'⟩,
    ⟨"zero-terminated", false, 'z'⟩]
  ordered := false

/-- How much is written: so many lines or bytes, or all but the last ones. -/
structure Amount where
  lines : Bool
  allBut : Bool
  count : Nat
  deriving DecidableEq, Repr

/-- What is asked for: how much, whether the names of the files are written even of one, or never, and what ends a line. -/
structure Request where
  amount : Amount
  titles : Option Bool
  ending : Char
  deriving DecidableEq, Repr

/-- Ten lines. -/
def Request.standard : Request := ⟨⟨true, false, 10⟩, none, '\n'⟩

/-- What stops the program before it reads: a quantity that is none, or a letter behind a number that means nothing. -/
inductive Refusal where
  | quantity (lines : Bool) (text : Raw) (f : QuantityFault)
  | trailing (letter : Char)
  deriving DecidableEq, Repr

/-- The amount that a value asks for. -/
def amount? (lines : Bool) (value : Raw) : Except Refusal Amount :=
  let allBut := value.head? = some '-'
  let text := if allBut then value.drop 1 else value
  match quantity? text with
  | .ok n => .ok ⟨lines, allBut, n⟩
  | .error f => .error (.quantity lines text f)

/-- The request with one more option. -/
def Request.add (r : Request) (option : Char × Raw) : Except Refusal Request :=
  match option.1 with
  | 'c' => (amount? false option.2).map fun amount => { r with amount }
  | 'n' => (amount? true option.2).map fun amount => { r with amount }
  | 'q' => .ok { r with titles := some false }
  | 'v' => .ok { r with titles := some true }
  | 'z' => .ok { r with ending := '\x00' }
  | c => .error (.trailing c)

/-- The request with letters that stand behind a number; the result tells too whether lines are counted, and the unit of the number. -/
def Request.addTrailing (r : Request) (lines : Bool) (unit : Raw) : Raw → Except Refusal (Request × Bool × Raw)
  | [] => .ok (r, lines, unit)
  | c :: cs =>
    match c with
    | 'c' => r.addTrailing false [] cs
    | 'b' | 'k' | 'm' => r.addTrailing false [c] cs
    | 'l' => r.addTrailing true unit cs
    | 'q' => { r with titles := some false }.addTrailing lines unit cs
    | 'v' => { r with titles := some true }.addTrailing lines unit cs
    | 'z' => { r with ending := '\x00' }.addTrailing lines unit cs
    | c => .error (.trailing c)

/-- The request of a first argument that is a number behind a minus sign, and the arguments behind it. -/
def Request.leading (args : List Raw) : Except Refusal (Request × List Raw) :=
  match args with
  | ('-' :: c :: cs) :: rest =>
    if !c.isDigit then .ok (standard, args)
    else do
      let digits := (c :: cs).takeWhile Char.isDigit
      let (r, lines, unit) ← standard.addTrailing true [] ((c :: cs).drop digits.length)
      let amount ← amount? lines (digits ++ unit)
      return ({ r with amount }, rest)
  | _ => .ok (standard, args)

/-- The pieces of a text that end in `ending`; the last one may have no end. -/
def linesOf (ending : Char) : Raw → List Raw
  | [] => []
  | c :: cs =>
    if c = ending then [c] :: linesOf ending cs
    else
      match linesOf ending cs with
      | [] => [[c]]
      | l :: ls => (c :: l) :: ls

/-- The first so many elements, or all but the last ones. -/
def Amount.of {α : Type} (a : Amount) (xs : List α) : List α := xs.take (if a.allBut then xs.length - a.count else a.count)

/-- The head of a text. -/
def Request.headOf (r : Request) (cs : Raw) : Raw :=
  if r.amount.lines then (r.amount.of (linesOf r.ending cs)).flatten else r.amount.of cs

/-- How many bytes of lines are read at a time. -/
def block : Nat := 8192

/-- How many bytes the program reads of so many that are there, when it needs the first `needed` ones. -/
def Request.reads (r : Request) (isPipe : Bool) (needed available : Nat) : Nat :=
  if r.amount.allBut then available
  else if r.amount.lines && isPipe then min available ((needed + block - 1) / block * block)
  else needed

/-- Something has to be read for the head. -/
def Amount.isRead (a : Amount) : Bool := a.allBut || a.count ≠ 0

/-- Writes the head of an open file. The result is whether all went well, and whether the output arrived. -/
def headOpen (r : Request) (shown : Raw) (id : Nat) : Routine (Bool × Bool) := do
  let p ← get
  let file := p.machine.opened[id]?
  let isPipe := file.any fun f => match f.target with
    | .pipe _ => true
    | _ => false
  if !r.amount.isRead then return (true, true)
  match p.machine.read id (p.machine.remaining id) with
  | .error f =>
    let failed : Raw := if file.isNone && r.amount.allBut then "cannot fstat " else "error reading "
    complainAs name (failed ++ Marked.closed shown ++ [':', ' '] ++ Raw.ofString f.words)
    return (false, true)
  | .ok (cs, _) =>
    let text := r.headOf cs
    let _ ← readOpen id (r.reads isPipe text.length cs.length)
    return (true, ← print text)

/-- The title of a file. -/
def title (first : Bool) (shown : Raw) : Raw := (if first then [] else ['\n']) ++ "==> " ++ shown ++ " <==\n"

/-- Writes the heads of files; `first` tells that no title was written before. The result is whether all went well, and whether the
output arrived. -/
def headAll (r : Request) (titles first : Bool) : List Raw → Routine (Bool × Bool)
  | [] => return (true, true)
  | file :: files => do
    let shown : Raw := if file = ['-'] then "standard input" else file
    let source ← if file = ['-'] then do pure (.ok (← opened input)) else openNamed .read file
    match source with
    | .ok id => do
      let named ← if titles then print (title first shown) else pure true
      let (well, written) ← headOpen r shown id
      let (rest, arrived) ← headAll r titles false files
      return (well && rest, named && written && arrived)
    | .error f => do
      complainAs name ("cannot open " ++ Marked.closed file ++ " for reading: " ++ f.words)
      let (_, arrived) ← headAll r titles first files
      return (false, arrived)

/-- Complains about a refusal. -/
def refuse : Refusal → Routine Unit
  | .quantity lines text f =>
    complainAs name ("invalid number of " ++ (if lines then "lines" else "bytes").toList ++ ": " ++ Marked.quoted text ++ f.remark)
  | .trailing c => complainOfUse name ("invalid trailing option -- " ++ [c])

/-- The program. -/
def run (args : List Raw) : Routine Nat := do
  match Request.leading args with
  | .error refusal =>
    refuse refusal
    return 1
  | .ok (r, args) =>
    let a := options.read args
    match a.given.foldlM Request.add r, a.fault with
    | .error refusal, _ =>
      refuse refusal
      return 1
    | .ok _, some f =>
      complainOfUse name f.message
      return 1
    | .ok r, none =>
      let files := if a.operands.isEmpty then [['-']] else a.operands
      let (well, written) ← headAll r (r.titles.getD (1 < files.length)) true files
      settle name (if files.contains ['-'] then some ['-'] else none) well written

end ScriptLoader.Program.Heading
