/-!
# Blank characters

The characters that count as white space in running text: the ASCII blanks, the four information separators, and the spaces and
line separators of the other scripts. Words are trimmed of them.
-/

namespace ScriptLoader.Text

/-- A blank of any script. -/
def isBlank (c : Char) : Bool :=
  let n := c.toNat
  (9 ≤ n && n ≤ 13) || (0x1c ≤ n && n ≤ 0x20) || n == 0x85 || n == 0xa0 || n == 0x1680 || (0x2000 ≤ n && n ≤ 0x200a) ||
    n == 0x2028 || n == 0x2029 || n == 0x202f || n == 0x205f || n == 0x3000

/-- A list without the elements that satisfy `p` at its two ends. -/
def trimmed (p : Char → Bool) (cs : List Char) : List Char :=
  (((cs.dropWhile p).reverse).dropWhile p).reverse

/-- A text without the blanks at its two ends. -/
def trim (s : String) : String := String.ofList (trimmed isBlank s.toList)

end ScriptLoader.Text
