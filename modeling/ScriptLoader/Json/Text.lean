import ScriptLoader.Uri.Percent

/-!
# Texts in JSON

A text between double quotes. Writing escapes the quote, the backslash and control characters, and nothing else; reading takes every
escape of the format and refuses control characters and halves of surrogate pairs.
-/

namespace ScriptLoader.Json

open Digest

/-- A character as it is written inside quotes. -/
def encodeChar (c : Char) : List Char :=
  if c = '\x22' then ['\\', '\x22']
  else if c = '\\' then ['\\', '\\']
  else if c = '\x08' then ['\\', 'b']
  else if c = '\t' then ['\\', 't']
  else if c = '\n' then ['\\', 'n']
  else if c = '\x0c' then ['\\', 'f']
  else if c = '\r' then ['\\', 'r']
  else if c.toNat < 0x20 then ['\\', 'u', '0', '0', hexDigit (c.toNat / 16), hexDigit (c.toNat % 16)]
  else [c]

/-- A text in quotes. -/
def encodeText (cs : List Char) : List Char := '\x22' :: (cs.flatMap encodeChar ++ ['\x22'])

/-- The number that four hexadecimal digits write. -/
def unit? (a b c d : Char) : Option Nat := do
  let a ← Uri.digitValue? a
  let b ← Uri.digitValue? b
  let c ← Uri.digitValue? c
  let d ← Uri.digitValue? d
  return ((a * 16 + b) * 16 + c) * 16 + d

/-- The first half of a surrogate pair. -/
def isHigh (n : Nat) : Bool := 0xd800 ≤ n && n < 0xdc00

/-- The second half of a surrogate pair. -/
def isLow (n : Nat) : Bool := 0xdc00 ≤ n && n < 0xe000

/-- The character that a backslash and `c` stand for. -/
def escaped? (c : Char) : Option Char :=
  if c = '\x22' || c = '\\' || c = '/' then some c
  else if c = 'b' then some '\x08'
  else if c = 'f' then some '\x0c'
  else if c = 'n' then some '\n'
  else if c = 'r' then some '\r'
  else if c = 't' then some '\t'
  else none

/-- Reads a text behind its opening quote, and gives what follows the closing one. -/
def readText : List Char → Option (List Char × List Char)
  | [] => none
  | '\x22' :: cs => some ([], cs)
  | '\\' :: 'u' :: a :: b :: c :: d :: cs =>
    match unit? a b c d with
    | none => none
    | some n =>
      if isHigh n then
        match cs with
        | '\\' :: 'u' :: a :: b :: c :: d :: cs =>
          match unit? a b c d with
          | none => none
          | some m =>
            if isLow m then
              (readText cs).map fun r => (Char.ofNat (0x10000 + (n - 0xd800) * 0x400 + (m - 0xdc00)) :: r.1, r.2)
            else none
        | _ => none
      else if isLow n then none
      else (readText cs).map fun r => (Char.ofNat n :: r.1, r.2)
  | '\\' :: c :: cs =>
    match escaped? c with
    | some x => (readText cs).map fun r => (x :: r.1, r.2)
    | none => none
  | c :: cs => if c = '\\' || c.toNat < 0x20 then none else (readText cs).map fun r => (c :: r.1, r.2)

end ScriptLoader.Json
