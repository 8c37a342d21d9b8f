import ScriptLoader.Digest.Sha256

/-!
# Percent encoding

Bytes as text of unreserved characters: every other byte is a percent sign and two hexadecimal digits. Reading takes any text: what
is no escape stands for itself, and escapes are read as UTF-8 with replacements.
-/

namespace ScriptLoader.Uri

open Text

/-- A byte that stands for itself in the path of a URI. -/
def isPlain (b : UInt8) : Bool :=
  (0x30 ≤ b && b ≤ 0x39) || (0x41 ≤ b && b ≤ 0x5a) || (0x61 ≤ b && b ≤ 0x7a) ||
    b = 0x5f || b = 0x2e || b = 0x2d || b = 0x7e || b = 0x2f

/-- A digit below sixteen, in upper case. -/
def escapeDigit (n : Nat) : Char := if n < 10 then Char.ofNat (48 + n) else Char.ofNat (55 + n)

/-- The escape of a byte. -/
def escapeByte (b : UInt8) : List Char :=
  if isPlain b then [Char.ofNat b.toNat] else ['%', escapeDigit (b.toNat / 16), escapeDigit (b.toNat % 16)]

/-- Bytes as the path of a URI. -/
def escape (bs : Bytes) : List Char := bs.flatMap escapeByte

/-- The value of a hexadecimal digit. -/
def digitValue? (c : Char) : Option Nat :=
  let n := c.toNat
  if 48 ≤ n && n ≤ 57 then some (n - 48)
  else if 65 ≤ n && n ≤ 70 then some (n - 55)
  else if 97 ≤ n && n ≤ 102 then some (n - 87)
  else none

/-- The byte of an escape with the digits `a` and `b`. -/
def escapedByte? (a b : Char) : Option UInt8 := do
  return UInt8.ofNat (16 * (← digitValue? a) + (← digitValue? b))

/-- The bytes that ASCII text stands for. -/
def unescape : List Char → Bytes
  | [] => []
  | '%' :: a :: b :: cs =>
    match escapedByte? a b with
    | some x => x :: unescape cs
    | none => 0x25 :: unescape (a :: b :: cs)
  | c :: cs => UInt8.ofNat c.toNat :: unescape cs

/-- A character of ASCII. -/
def isAscii (c : Char) : Bool := c.toNat < 0x80

/-- The text that an escaped text stands for: stretches of ASCII are read as bytes, and other characters stand for themselves. -/
def unescapeText (cs : List Char) : List Char :=
  match cs with
  | [] => []
  | c :: cs =>
    if isAscii c then Utf8.decodeLossy (unescape (c :: cs.takeWhile isAscii)) ++ unescapeText (cs.dropWhile isAscii)
    else c :: unescapeText cs
termination_by cs.length
decreasing_by
  · have := (List.dropWhile_sublist (p := isAscii) (l := cs)).length_le
    simp only [List.length_cons]
    omega
  · simp only [List.length_cons]; omega

/-- The text that an escaped text stands for. -/
def unescaped (s : String) : String := String.ofList (unescapeText s.toList)

end ScriptLoader.Uri
