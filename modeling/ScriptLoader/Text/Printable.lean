import ScriptLoader.Text.Ranges
import ScriptLoader.Text.UnassignedTable

/-!
# Printable characters

Characters that leave a mark where they are printed. Control and format characters, separators other than the space, and code points
for private use or without a character are not printable.
-/

namespace ScriptLoader.Text

/-- The format characters. -/
def formatRanges : List (Nat × Nat) :=
  [(0xad, 0xad), (0x600, 0x605), (0x61c, 0x61c), (0x6dd, 0x6dd), (0x70f, 0x70f), (0x890, 0x891), (0x8e2, 0x8e2),
   (0x180e, 0x180e), (0x200b, 0x200f), (0x202a, 0x202e), (0x2060, 0x2064), (0x2066, 0x206f), (0xfeff, 0xfeff), (0xfff9, 0xfffb),
   (0x110bd, 0x110bd), (0x110cd, 0x110cd), (0x13430, 0x13438), (0x1bca0, 0x1bca3), (0x1d173, 0x1d17a), (0xe0001, 0xe0001),
   (0xe0020, 0xe007f)]

/-- The spaces of other widths, and the separators of lines and paragraphs. -/
def separatorRanges : List (Nat × Nat) :=
  [(0xa0, 0xa0), (0x1680, 0x1680), (0x2000, 0x200a), (0x2028, 0x2029), (0x202f, 0x202f), (0x205f, 0x205f), (0x3000, 0x3000)]

/-- The code points for private use. -/
def privateRanges : List (Nat × Nat) := [(0xe000, 0xf8ff), (0xf0000, 0xffffd), (0x100000, 0x10fffd)]

/-- A control character. -/
def isControl (c : Char) : Bool := c.toNat < 0x20 || (0x7f ≤ c.toNat && c.toNat < 0xa0)

/-- A code point without a character. -/
def isUnassigned (c : Char) : Bool := 0x80 ≤ c.toNat && inRanges unassignedRanges c

/-- A character that is shown as itself. -/
def isPrintable (c : Char) : Bool :=
  !isControl c && (c.toNat < 0x80 ||
    !(inRanges formatRanges c || inRanges separatorRanges c || inRanges privateRanges c || isUnassigned c))

/-- A character that a terminal can show: also spaces, format characters and those for private use, but no control character and no
separator of lines and paragraphs. -/
def isDisplayed (c : Char) : Bool := !isControl c && c ≠ '\u2028' && c ≠ '\u2029' && !isUnassigned c

/-- What is printable can be shown. -/
theorem isDisplayed_of_isPrintable {c : Char} (h : isPrintable c = true) : isDisplayed c = true := by
  have h1 : c ≠ '\u2028' := by rintro rfl; exact absurd h (by decide)
  have h2 : c ≠ '\u2029' := by rintro rfl; exact absurd h (by decide)
  simp only [isPrintable, Bool.and_eq_true, Bool.not_eq_true', Bool.or_eq_true, decide_eq_true_eq, Bool.or_eq_false_iff] at h
  have h3 : isUnassigned c = false := by
    rcases h.2 with hlt | hr
    · simp only [isUnassigned, Bool.and_eq_false_iff, decide_eq_false_iff_not]
      left; omega
    · exact hr.2
  simp [isDisplayed, h.1, h1, h2, h3]

/-- The printable ASCII characters are those from the space to the tilde. -/
theorem isPrintable_of_le {c : Char} (lo : 0x20 ≤ c.toNat) (hi : c.toNat < 0x7f) : isPrintable c = true := by
  have h : ¬ c.toNat < 0x20 := by omega
  have h2 : ¬ 0x7f ≤ c.toNat := by omega
  have h3 : c.toNat < 0x80 := by omega
  simp [isPrintable, isControl, h, h2, h3]

end ScriptLoader.Text
