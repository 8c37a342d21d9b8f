import ScriptLoader.Process.Routine

/-!
# Echoing

The program that writes its words with blanks between them and a line feed behind them. Options can leave the line feed out, and give
meaning to backslashes; a word that is no option ends them.
-/

namespace ScriptLoader.Program.Echoing

/-- The letters of options. -/
def letters : List Char := ['n', 'e', 'E']

/-- A word that is an option. -/
def isOption (word : Raw) : Bool :=
  match word with
  | '-' :: c :: cs => (c :: cs).all letters.contains
  | _ => false

/-- The control characters that have a letter behind a backslash. -/
def controls : List (Char × Char) :=
  [('a', '\x07'), ('b', '\x08'), ('e', '\x1b'), ('f', '\x0c'), ('n', '\n'), ('r', '\r'), ('t', '\t'), ('v', '\x0b'), ('\\', '\\')]

/-- The value of a hexadecimal digit. -/
def hexDigit? (c : Char) : Option Nat :=
  if c.isDigit then some (c.toNat - 48)
  else if 'a' ≤ c && c ≤ 'f' then some (c.toNat - 87)
  else if 'A' ≤ c && c ≤ 'F' then some (c.toNat - 55)
  else none

/-- The value of an octal digit. -/
def octalDigit? (c : Char) : Option Nat := if '0' ≤ c && c ≤ '7' then some (c.toNat - 48) else none

/-- The byte that at most `most` digits stand for, and what follows them. -/
def byteAt (digit? : Char → Option Nat) (base most : Nat) (cs : Raw) : Char × Raw :=
  let ds := (cs.take most).takeWhile fun c => (digit? c).isSome
  (Char.ofNat ((ds.filterMap digit?).foldl (fun n d => base * n + d) 0 % 256), cs.drop ds.length)

/-- The text that backslashes stand for, and whether it was cut short; `n` bounds its length. -/
def meaning : Nat → Raw → Raw × Bool
  | 0, _ => ([], false)
  | _, [] => ([], false)
  | n + 1, '\\' :: c :: cs =>
    let more (text : Raw) (rest : Raw) : Raw × Bool :=
      let (behind, cut) := meaning n rest
      (text ++ behind, cut)
    match controls.lookup c with
    | some x => more [x] cs
    | none =>
      if c = 'c' then ([], true)
      else if c = 'x' && ((cs.head?).bind hexDigit?).isSome then
        let (x, rest) := byteAt hexDigit? 16 2 cs
        more [x] rest
      else if (octalDigit? c).isSome then
        let (x, rest) := byteAt octalDigit? 8 3 (if c = '0' then cs else c :: cs)
        more [x] rest
      else more ['\\', c] cs
  | n + 1, c :: cs =>
    let (behind, cut) := meaning n cs
    (c :: behind, cut)

/-- The program, under the name by which it was called. -/
def run (program : Raw) (args : List Raw) : Routine Nat := do
  let options := args.takeWhile isOption
  let words := args.drop options.length
  let given := options.flatMap (·.drop 1)
  let expands := (given.filter (· ≠ 'n')).getLast? = some 'e'
  let text := Raw.join [' '] words
  let (text, cut) := if expands then meaning text.length text else (text, false)
  let text := if cut || given.contains 'n' then text else text ++ ['\n']
  Routine.settle program none true (← Routine.print text)

end ScriptLoader.Program.Echoing
