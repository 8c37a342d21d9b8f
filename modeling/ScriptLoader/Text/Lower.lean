import ScriptLoader.Text.CaseTable
import ScriptLoader.Text.Ranges

/-!
# Lower case

The lower case form of a text. Every character is mapped by itself, except the capital sigma, which at the end of a word becomes
the final form of the letter, and the dotted capital I, which becomes two characters, so that a text can grow.
-/

namespace ScriptLoader.Text

/-- A letter with case. -/
def isCased (c : Char) : Bool := if c.toNat < 0x80 then c.isAlpha else inRanges casedRanges c

/-- A character that is passed over between letters. -/
def isPassedOver (c : Char) : Bool := inRanges passedOverRanges c

/-- The character is one of the range. -/
def CaseRange.contains (r : CaseRange) (c : Char) : Bool :=
  r.first ≤ c.toNat && c.toNat ≤ r.last && (c.toNat - r.first) % r.stride == 0

/-- The lower case form of a character by itself. -/
def lowerChar (c : Char) : List Char :=
  if c.toNat < 0x80 then [c.toLower]
  else if c = '\u0130' then ['i', '\u0307']
  else
    match lowerRanges.find? (·.contains c) with
    | some r => [Char.ofNat (c.toNat + r.offset).toNat]
    | none => [c]

/-- The nearest letter in a direction is cased. -/
def nextToCased (cs : List Char) : Bool := ((cs.dropWhile isPassedOver).head?).any isCased

/-- The lower case form of a text with the characters `before` in front of it, nearest first. -/
def lowerFrom (before : List Char) : List Char → List Char
  | [] => []
  | c :: cs =>
    let form := if c = '\u03a3' && nextToCased before && !nextToCased cs then ['\u03c2'] else lowerChar c
    form ++ lowerFrom (c :: before) cs

/-- The lower case form of a text. -/
def lower (s : String) : String := String.ofList (lowerFrom [] s.toList)

/-- The text ends in `ending`. -/
def endsWith (s ending : String) : Bool := ending.toList.isSuffixOf s.toList

/-- The text begins with `start`. -/
def startsWith (s start : String) : Bool := start.toList.isPrefixOf s.toList

/-- The text without as many characters at the end as `ending` has; nothing is left where there are not as many. -/
def dropEnding (s ending : String) : String := String.ofList (s.toList.take (s.toList.length - ending.toList.length))

end ScriptLoader.Text
