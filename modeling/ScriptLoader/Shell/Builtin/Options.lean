import ScriptLoader.Shell.State

/-!
# Options of builtin commands

A builtin command takes its words to a status and to what it writes when it is done. Its options are letters behind a hyphen; two hyphens
end them.
-/

namespace ScriptLoader.Shell

/-- What a builtin command does with its words: its status, and its output. -/
abbrev Builtin := List Raw → Act (Nat × Raw)

namespace Builtin

open Act

/-- An option takes a value; `letters` names all options, those with a value in front of a colon. -/
def takesValue (letters : Raw) (c : Char) : Bool :=
  match letters.dropWhile (· ≠ c) with
  | _ :: ':' :: _ => true
  | _ => false

/-- The options in a word behind its hyphen, with the words behind it, and the words that are left. -/
def optionsOfWord (letters : Raw) (rest : List Raw) : Raw → Act (List (Char × Raw) × List Raw)
  | [] => return ([], rest)
  | c :: cs => do
    if c = ':' || !letters.contains c then fail ("Illegal option -" ++ [c])
    if takesValue letters c then
      if !cs.isEmpty then return ([(c, cs)], rest)
      match rest with
      | v :: rest => return ([(c, v)], rest)
      | [] => fail ("No arg for -" ++ [c] ++ " option")
    let (more, rest) ← optionsOfWord letters rest cs
    return ((c, []) :: more, rest)

/-- The options in front of words, and the words behind them; `n` bounds the number of words with options. -/
def optionsWithin (letters : Raw) : Nat → List Raw → Act (List (Char × Raw) × List Raw)
  | 0, words => return ([], words)
  | n + 1, words => do
    match words with
    | ('-' :: c :: cs) :: rest =>
      if c = '-' && cs.isEmpty then return ([], rest)
      let (here, rest) ← optionsOfWord letters rest (c :: cs)
      let (more, rest) ← optionsWithin letters n rest
      return (here ++ more, rest)
    | words => return ([], words)

/-- The options in front of words, and the words behind them. -/
def options (letters : Raw) (words : List Raw) : Act (List (Char × Raw) × List Raw) := optionsWithin letters words.length words

/-- A text between quotes that the shell reads back. -/
def quoted (text : Raw) : Raw :=
  let runs := text.splitBy fun a b => (a = '\'') = (b = '\'')
  let one (run : Raw) : Raw :=
    let q := if run.head? = some '\'' then '\x22' else '\''
    q :: run ++ [q]
  if text.isEmpty then ['\'', '\''] else runs.flatMap one

/-- A builtin command that succeeds and writes nothing. -/
def silent (act : Act Unit) : Act (Nat × Raw) := do
  act
  return (0, [])

end Builtin

end ScriptLoader.Shell
