import ScriptLoader.Process.Raw
import ScriptLoader.Text.Printable

/-!
# Marked words

How programs show a word in a complaint: always between typographic quotes, or in the form in which a shell would read it as one word,
which needs quotes only for some words.
-/

namespace ScriptLoader.Marked

open Text

/-- A byte as a backslash and three octal digits. -/
def octal (c : Char) : Raw :=
  ['\\', Char.ofNat (48 + c.toNat / 64), Char.ofNat (48 + c.toNat / 8 % 8), Char.ofNat (48 + c.toNat % 8)]

/-- The control characters that have a letter. -/
def letters : List (Char × Char) :=
  [('\x07', 'a'), ('\x08', 'b'), ('\x0c', 'f'), ('\n', 'n'), ('\r', 'r'), ('\t', 't'), ('\x0b', 'v')]

/-- The letter of a control character. -/
def letter? (c : Char) : Option Char := letters.lookup c

/-- The control character of a letter. -/
def lettered? (c : Char) : Option Char := (letters.find? (·.2 = c)).map (·.1)

/-- A letter stands for the control character whose letter it is. -/
theorem lettered?_letters : ∀ e ∈ letters, lettered? e.2 = some e.1 := by decide

/-- A byte that is not printable by itself, as an escape. -/
def escape (c : Char) : Raw :=
  match letter? c with
  | some l => ['\\', l]
  | none => octal c

/-- A text as pieces: characters that can be printed, and bytes that cannot. -/
def printables (bs : Bytes) : List (Raw × Bool) :=
  match bs with
  | [] => []
  | b :: bs =>
    have : (Utf8.head b bs).2.length ≤ bs.length := Utf8.length_head_le b bs
    let used := Raw.ofBytes (b :: bs.take (bs.length - (Utf8.head b bs).2.length))
    let shown := ((Utf8.head b bs).1).any isDisplayed
    (used, shown) :: printables (Utf8.head b bs).2
termination_by bs.length
decreasing_by simp only [List.length_cons]; omega

/-- A word between typographic quotes. -/
def quoted (word : Raw) : Raw :=
  let closing : Raw := "\u2019"
  let inner := (printables (Raw.toBytes word)).flatMap fun (cs, shown) =>
    if !shown then cs.flatMap escape
    else if cs = closing then '\\' :: cs
    else if cs = ['\\'] then ['\\', '\\']
    else cs
  "\u2018" ++ inner ++ closing

/-- A character that means something to a shell. -/
def isSpecial (c : Char) : Bool := "!\x22$&()*;<=>?[\\^\x60|".toList.contains c

/-- The word is read as it stands. A colon would be taken for the end of the word. -/
def isPlain (word : Raw) : Bool :=
  !word.isEmpty && word ≠ ['\x7b'] && word ≠ ['\x7d'] && word.head? ≠ some '#' && word.head? ≠ some '~' &&
    !(word.any fun c => isSpecial c || c = ' ' || c = ':' || c = '\'') && (printables (Raw.toBytes word)).all (·.2)

/-- The pieces of a word between single quotes, where what cannot be printed stands outside of them as escapes. -/
def singles (escaping : Bool) : List (Raw × Bool) → Raw
  | [] => ['\'']
  | (cs, shown) :: pieces =>
    let leaving := if escaping then ['\'', '\''] else []
    if cs = ['\''] then leaving ++ ['\'', '\\', '\'', '\''] ++ singles false pieces
    else if shown then leaving ++ cs ++ singles false pieces
    else (if escaping then [] else ['\'', '$', '\'']) ++ cs.flatMap escape ++ singles true pieces

/-- A word between quotes that a shell takes away. -/
def closed (word : Raw) : Raw :=
  let pieces := printables (Raw.toBytes word)
  if word.contains '\'' && pieces.all (·.2) && !word.any isSpecial then ['\x22'] ++ word ++ ['\x22']
  else '\'' :: singles false pieces

/-- A word in the form in which a shell would read it, with quotes where it needs them. -/
def shellWord (word : Raw) : Raw := if isPlain word then word else closed word

end ScriptLoader.Marked
