import ScriptLoader.Text.Printable

/-!
# Quoted texts

A text as it is shown in a report: between single quotes, or between double quotes if it holds a single quote and no double one, with
a backslash before the quote and before a backslash, and characters that are not printable as escapes.
-/

namespace ScriptLoader.Text

/-- A number in hexadecimal digits, with zeros in front up to the width. -/
def hexadecimal (width n : Nat) : List Char :=
  let digits := Nat.toDigits 16 n
  List.replicate (width - digits.length) '0' ++ digits

/-- The escape of a character by its code point, in as many digits as it needs: two, four or eight. -/
def codeEscape (c : Char) : List Char :=
  if c.toNat < 0x100 then '\\' :: 'x' :: hexadecimal 2 c.toNat
  else if c.toNat < 0x10000 then '\\' :: 'u' :: hexadecimal 4 c.toNat
  else '\\' :: 'U' :: hexadecimal 8 c.toNat

/-- A character between the quotes `q`. -/
def quotedChar (q c : Char) : List Char :=
  if c = q || c = '\\' then ['\\', c]
  else if c = '\t' then ['\\', 't']
  else if c = '\n' then ['\\', 'n']
  else if c = '\r' then ['\\', 'r']
  else if isPrintable c then [c]
  else codeEscape c

/-- The quote that a text is shown in. -/
def quoteFor (cs : List Char) : Char := if cs.contains '\'' && !cs.contains '\x22' then '\x22' else '\''

/-- The text as it is shown. -/
def quoted (s : String) : String :=
  let q := quoteFor s.toList
  String.ofList (q :: (s.toList.flatMap (quotedChar q) ++ [q]))

end ScriptLoader.Text
