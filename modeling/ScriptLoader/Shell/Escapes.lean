import ScriptLoader.Process.Raw

/-!
# Escapes

What a backslash stands for in printed texts: control characters by a letter, bytes by octal digits, and itself before all else.
-/

namespace ScriptLoader.Shell

/-- The control characters that have a letter. -/
def escapeLetters : List (Char × Char) :=
  [('a', '\x07'), ('b', '\x08'), ('e', '\x1b'), ('f', '\x0c'), ('n', '\n'), ('r', '\r'), ('t', '\t'), ('v', '\x0b'), ('\\', '\\')]

/-- An octal digit. -/
def isOctalDigit (c : Char) : Bool := '0' ≤ c && c ≤ '7'

/-- The byte of at most three octal digits, and what follows them. -/
def octalByte (cs : Raw) : Char × Raw :=
  let ds := (cs.take 3).takeWhile isOctalDigit
  (Char.ofNat (ds.foldl (fun n c => 8 * n + (c.toNat - 48)) 0 % 256), cs.drop ds.length)

/-- The character that a backslash before `cs` stands for, and what follows. -/
def escaped (cs : Raw) : Char × Raw :=
  match cs with
  | [] => ('\\', [])
  | c :: rest =>
    if isOctalDigit c then octalByte cs
    else
      match escapeLetters.lookup c with
      | some x => (x, rest)
      | none => ('\\', cs)

/-- A text with its escapes taken out, and whether it was cut short by the one that ends all printing; `n` bounds its length. Octal digits
may begin with one more zero here. -/
def unescapedWithin : Nat → Raw → Raw × Bool
  | 0, _ => ([], false)
  | n + 1, cs =>
    match cs with
    | [] => ([], false)
    | '\\' :: 'c' :: _ => ([], true)
    | '\\' :: rest =>
      let (c, rest) := if rest.head? = some '0' then octalByte (rest.drop 1) else escaped rest
      let (text, ended) := unescapedWithin n rest
      (c :: text, ended)
    | c :: rest =>
      let (text, ended) := unescapedWithin n rest
      (c :: text, ended)

/-- A text with its escapes taken out, and whether it was cut short. -/
def unescaped (cs : Raw) : Raw × Bool := unescapedWithin cs.length cs

end ScriptLoader.Shell
