import ScriptLoader.Text.Utf8

/-!
# Raw text

What passes through a program is a list of bytes, but it is read and written as text. A raw text holds each byte as the character with
its number, so that characters can be compared with letters and marks; no character beyond the 256 bytes occurs in it.
-/

namespace ScriptLoader

/-- A list of bytes, each as the character with its number. -/
abbrev Raw := List Char

namespace Raw

/-- Bytes as a raw text. -/
def ofBytes (bs : Bytes) : Raw := bs.map fun b => Char.ofNat b.toNat

/-- The bytes of a raw text. -/
def toBytes (cs : Raw) : Bytes := cs.map fun c => UInt8.ofNat c.toNat

/-- A byte keeps its number as a character. -/
theorem byte_ofNat_toNat (b : UInt8) : UInt8.ofNat (Char.ofNat b.toNat).toNat = b := by
  have h : b.toNat.isValidChar := Or.inl (by have := b.toNat_lt; omega)
  have hv : (Char.ofNat b.toNat).toNat = b.toNat := by
    rw [Char.ofNat, dif_pos h]
    rfl
  simp [hv]

/-- Nothing is lost when bytes are read as a raw text. -/
theorem toBytes_ofBytes (bs : Bytes) : toBytes (ofBytes bs) = bs := by
  induction bs with
  | nil => rfl
  | cons b bs ih =>
    simp only [ofBytes, toBytes, List.map_cons, byte_ofNat_toNat, List.cons.injEq, true_and]
    exact ih

/-- A text as it is written. -/
def ofString (s : String) : Raw := if s.toList.all (·.toNat < 0x80) then s.toList else ofBytes (Text.Utf8.encode s.toList)

/-- A raw text as it is read. -/
def string (cs : Raw) : String :=
  if cs.all (·.toNat < 0x80) then String.ofList cs else String.ofList (Text.Utf8.decodeLossy (toBytes cs))

instance : Coe String Raw := ⟨Raw.ofString⟩

/-- A number in decimal digits. -/
def ofNat (n : Nat) : Raw := Nat.toDigits 10 n

/-- A whole number in decimal digits. -/
def ofInt (n : Int) : Raw := if n < 0 then '-' :: ofNat n.natAbs else ofNat n.natAbs

/-- The value of decimal digits, if there is at least one and nothing else. -/
def decimal? (cs : Raw) : Option Nat :=
  if !cs.isEmpty && cs.all Char.isDigit then some (cs.foldl (fun n c => 10 * n + (c.toNat - 48)) 0) else none

/-- A blank: a space or a control character that moves the place where text is written. -/
def isSpace (c : Char) : Bool := c = ' ' || ('\t' ≤ c && c ≤ '\r')

/-- A character that begins a name. -/
def isNameStart (c : Char) : Bool := c.isAlpha || c = '_'

/-- A character inside a name. -/
def isNameChar (c : Char) : Bool := c.isAlphanum || c = '_'

/-- The text is a name. -/
def isName (cs : Raw) : Bool := (cs.head?).any isNameStart && cs.all isNameChar

/-- The order of texts by their bytes. -/
def isAtMost (a b : Raw) : Bool := !(b < a)

/-- Texts with a separator between each two. -/
def join (sep : Raw) : List Raw → Raw
  | [] => []
  | [t] => t
  | t :: u :: ts => t ++ sep ++ join sep (u :: ts)

end Raw

end ScriptLoader
