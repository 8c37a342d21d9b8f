import ScriptLoader.Text.Lower
import ScriptLoader.Text.Utf8

/-!
# Encodings

The encodings by which sources are read and results are written, and the names under which they are known. Not every text can be
written in every encoding, and not all bytes can be read.
-/

namespace ScriptLoader.Text

/-- A way to write texts as bytes. -/
inductive Encoding where
  | utf8
  | latin1
  | ascii
  deriving DecidableEq, Repr

namespace Encoding

/-- The highest code point of an encoding with one byte a character. -/
def limit : Encoding → Nat
  | utf8 => 0x10ffff
  | latin1 => 0xff
  | ascii => 0x7f

/-- The names of each encoding, with hyphens for the separators. -/
def names : Encoding → List String
  | utf8 => ["utf-8", "utf8", "u8", "utf", "cp65001"]
  | latin1 => ["latin-1", "latin1", "latin", "l1", "iso-8859-1", "iso8859-1", "8859", "cp819"]
  | ascii => ["ascii", "us-ascii", "646"]

/-- The encoding with this name, whatever the case and the separators. -/
def named? (label : String) : Option Encoding :=
  let plain := String.ofList ((lower label).toList.map fun c => if c = '_' || c = ' ' then '-' else c)
  [utf8, latin1, ascii].find? fun e => e.names.contains plain

/-- The bytes of a text, if it can be written. -/
def encode? (e : Encoding) (s : String) : Option Bytes :=
  match e with
  | utf8 => some (Utf8.encode s.toList)
  | _ => if s.toList.all (·.toNat ≤ e.limit) then some (s.toList.map fun c => UInt8.ofNat c.toNat) else none

/-- The text of the bytes, if they can be read. -/
def decode? (e : Encoding) (bs : Bytes) : Option String :=
  match e with
  | utf8 => (Utf8.decode bs).map String.ofList
  | _ => if bs.all (·.toNat ≤ e.limit) then some (String.ofList (bs.map fun b => Char.ofNat b.toNat)) else none

/-- The text of the bytes with replacements for what cannot be read. -/
def decodeLossy (e : Encoding) (bs : Bytes) : String :=
  match e with
  | utf8 => String.ofList (Utf8.decodeLossy bs)
  | _ => String.ofList (bs.map fun b => if b.toNat ≤ e.limit then Char.ofNat b.toNat else Utf8.replacement)

end Encoding

/-- Every line break is written as a line feed. -/
def unifyLineBreaks : List Char → List Char
  | '\r' :: '\n' :: cs => '\n' :: unifyLineBreaks cs
  | '\r' :: cs => '\n' :: unifyLineBreaks cs
  | c :: cs => c :: unifyLineBreaks cs
  | [] => []

end ScriptLoader.Text
