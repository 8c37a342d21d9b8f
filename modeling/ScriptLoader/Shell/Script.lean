import ScriptLoader.Shell.Token

/-!
# Scripts as text

What is left of a script while it is read: the characters, the number of the line, a token that was put back, and the documents that
stand between its lines. A line that ends in a backslash goes on in the next one; `peek` and `next` pass over such a break.
-/

namespace ScriptLoader.Shell

/-- A document that begins behind the line: its number, the line that ends it, and how it is read. -/
structure Awaited where
  number : Nat
  mark : Raw
  dropTabs : Bool
  expanded : Bool
  deriving DecidableEq, Repr

/-- What is left of a script. `last` is the last token. -/
structure Script where
  rest : Raw
  line : Nat
  pushed : Option Token
  last : Token
  awaited : List Awaited
  documents : List (Nat × List Part)
  nextDocument : Nat

/-- A script from its beginning, whose documents are numbered from `nextDocument` on. -/
def Script.start (text : Raw) (nextDocument : Nat) : Script := ⟨text, 1, none, .newline, [], [], nextDocument⟩

/-- What is wrong with a script, and in which line. -/
structure SyntaxError where
  fault : SyntaxFault
  line : Nat
  deriving DecidableEq, Repr

/-- What reads a script. -/
abbrev Reading := StateT Script (Except SyntaxError)

namespace Reading

/-- Refuses the script. -/
def fail {α : Type} (f : SyntaxFault) : Reading α := do throw ⟨f, (← get).line⟩

/-- Refuses the script because of the last token. -/
def unexpected {α : Type} : Reading α := do fail (.unexpected (← get).last.name)

/-- Refuses the script because of the last token, in the place of another one. -/
def expecting {α : Type} (wanted : Token) : Reading α := do fail (.expecting (← get).last.name wanted.name)

/-- Goes on to the next line. -/
def countLine : Reading Unit := modify fun s => { s with line := s.line + 1 }

/-- The characters without breaks in front that a backslash takes away, and how many there are. -/
def withoutBreaks (breaks : Nat) : Raw → Raw × Nat
  | '\\' :: '\n' :: cs => withoutBreaks (breaks + 1) cs
  | cs => (cs, breaks)

/-- Takes away breaks that a backslash takes away. -/
def dropBreaks : Reading Unit := modify fun s =>
  let (rest, breaks) := withoutBreaks 0 s.rest
  { s with rest, line := s.line + breaks }

/-- The next character, which stays. -/
def peekRaw : Reading (Option Char) := do return (← get).rest.head?

/-- The next character, which is taken. -/
def nextRaw : Reading (Option Char) := do
  let s ← get
  set { s with rest := s.rest.drop 1 }
  return s.rest.head?

/-- The next character behind breaks, which stays. -/
def peek : Reading (Option Char) := do
  dropBreaks
  peekRaw

/-- The next character behind breaks, which is taken. -/
def next : Reading (Option Char) := do
  dropBreaks
  nextRaw

/-- Takes the next character behind breaks if it is this one. -/
def nextIs (c : Char) : Reading Bool := do
  if (← peek) = some c then
    let _ ← nextRaw
    return true
  return false

/-- Takes characters behind breaks as long as they satisfy `p`; `n` bounds their number. -/
def nextWhile (p : Char → Bool) : Nat → Reading Raw
  | 0 => return []
  | n + 1 => do
    match ← peek with
    | some c =>
      if p c then
        let _ ← nextRaw
        return c :: (← nextWhile p n)
      return []
    | none => return []

/-- A bound for what can be read from here, with a token that was put back and the end of the script. -/
def bound : Reading Nat := do return (← get).rest.length + 3

end Reading

end ScriptLoader.Shell
