import ScriptLoader.Process.Marked

/-!
# Sets of bytes

A set of bytes is written as characters, escapes, ranges, named classes, equivalents of a character, and repetitions. Its items are
read in order (`items`); what a set stands for is a list of bytes, because sets are exchanged byte by byte.
-/

namespace ScriptLoader.Program

/-- A named class of bytes. -/
inductive ByteClass where
  | alnum
  | alpha
  | blank
  | cntrl
  | digit
  | graph
  | lower
  | print
  | punct
  | space
  | upper
  | xdigit
  deriving DecidableEq, Repr

namespace ByteClass

/-- The names of the classes. -/
def names : List (String × ByteClass) :=
  [("alnum", alnum), ("alpha", alpha), ("blank", blank), ("cntrl", cntrl), ("digit", digit), ("graph", graph), ("lower", lower),
   ("print", print), ("punct", punct), ("space", space), ("upper", upper), ("xdigit", xdigit)]

/-- The class with a name. -/
def named? (name : Raw) : Option ByteClass := names.lookup (String.ofList name)

/-- The byte belongs to the class. -/
def contains (k : ByteClass) (c : Char) : Bool :=
  match k with
  | alnum => c.isAlphanum
  | alpha => c.isAlpha
  | blank => c = ' ' || c = '\t'
  | cntrl => c.toNat < 0x20 || c.toNat = 0x7f
  | digit => c.isDigit
  | graph => '!' ≤ c && c ≤ '~'
  | lower => c.isLower
  | print => ' ' ≤ c && c ≤ '~'
  | punct => '!' ≤ c && c ≤ '~' && !c.isAlphanum
  | space => Raw.isSpace c
  | upper => c.isUpper
  | xdigit => c.isDigit || ('a' ≤ c && c ≤ 'f') || ('A' ≤ c && c ≤ 'F')

/-- The other case of a class of letters, with the letter that stands for another one. -/
def otherCase? : ByteClass → Option (ByteClass × (Char → Char))
  | lower => some (upper, Char.toUpper)
  | upper => some (lower, Char.toLower)
  | _ => none

end ByteClass

/-- The bytes from one to another. -/
def byteRange (first last : Char) : Raw := (List.range (last.toNat + 1 - first.toNat)).map fun i => Char.ofNat (first.toNat + i)

/-- All bytes. -/
def allBytes : Raw := byteRange '\x00' (Char.ofNat 255)

/-- An item of a set. A repetition without a number is as long as it has to be. -/
inductive SetItem where
  | byte (c : Char)
  | range (first last : Char)
  | named (k : ByteClass)
  | equivalent (c : Char)
  | repeated (c : Char) (count : Option Nat)
  deriving DecidableEq, Repr

namespace SetItem

/-- The bytes of an item. -/
def bytes : SetItem → Raw
  | byte c => [c]
  | range a b => byteRange a b
  | named k => allBytes.filter k.contains
  | equivalent c => [c]
  | repeated c count => List.replicate (count.getD 0) c

end SetItem

/-- What is wrong with the text of a set. -/
inductive SetFault where
  | reversedRange (first last : Char)
  | noClassName
  | noEquivalent
  | unknownClass (name : Raw)
  | longEquivalent (text : Raw)
  | invalidCount (text : Raw)
  deriving DecidableEq, Repr

/-- A byte as it is shown in a complaint. -/
def shownByte (c : Char) : Raw := if c = '\\' || (' ' ≤ c && c ≤ '~') then [c] else Marked.octal c

/-- A text as it is shown in a complaint. -/
def shownText (cs : Raw) : Raw :=
  cs.flatMap fun c => if c = '\\' || (' ' ≤ c && c ≤ '~') then [c] else Marked.escape c

/-- The report of a fault. -/
def SetFault.message : SetFault → Raw
  | reversedRange a b =>
    "range-endpoints of '" ++ shownByte a ++ "-" ++ shownByte b ++ "' are in reverse collating sequence order"
  | noClassName => "missing character class name '[::]'"
  | noEquivalent => "missing equivalence class character '[==]'"
  | unknownClass name => "invalid character class " ++ Marked.quoted (shownText name)
  | longEquivalent text => shownText text ++ ": equivalence class operand must be a single character"
  | invalidCount text => "invalid repeat count " ++ Marked.quoted (shownText text) ++ " in [c*n] construct"

namespace SetItem

/-- An octal digit. -/
def isOctal (c : Char) : Bool := '0' ≤ c && c ≤ '7'

/-- The value of an octal digit. -/
def octalValue (c : Char) : Nat := c.toNat - 48

/-- The warning about a backslash with nothing behind it. -/
def loneBackslash : Raw := "warning: an unescaped backslash at end of string is not portable"

/-- The warning about octal digits that are too many for a byte. -/
def ambiguousOctal (a b c : Char) : Raw :=
  "warning: the ambiguous octal escape \\" ++ [a, b, c] ++ " is being\n\tinterpreted as the 2-byte sequence \\0" ++ [a, b] ++
    ", " ++ [c]

/-- The bytes of a text, each with whether it was escaped, and the warnings about escapes. -/
def unescape : Raw → List (Char × Bool) × List Raw
  | [] => ([], [])
  | ['\\'] => ([('\\', false)], [loneBackslash])
  | '\\' :: c :: cs =>
    if !isOctal c then
      let (rest, warnings) := unescape cs
      (((Marked.lettered? c).getD c, true) :: rest, warnings)
    else
      match cs with
      | d :: e :: cs =>
        if !isOctal d then
          let (rest, warnings) := unescape (d :: e :: cs)
          ((Char.ofNat (octalValue c), true) :: rest, warnings)
        else
          let two := 8 * octalValue c + octalValue d
          if !isOctal e then
            let (rest, warnings) := unescape (e :: cs)
            ((Char.ofNat two, true) :: rest, warnings)
          else if 8 * two + octalValue e < 256 then
            let (rest, warnings) := unescape cs
            ((Char.ofNat (8 * two + octalValue e), true) :: rest, warnings)
          else
            let (rest, warnings) := unescape (e :: cs)
            ((Char.ofNat two, true) :: rest, ambiguousOctal c d e :: warnings)
      | [d] =>
        if isOctal d then ([(Char.ofNat (8 * octalValue c + octalValue d), true)], [])
        else ([(Char.ofNat (octalValue c), true), (d, false)], if d = '\\' then [loneBackslash] else [])
      | [] => ([(Char.ofNat (octalValue c), true)], [])
  | c :: cs =>
    let (rest, warnings) := unescape cs
    ((c, false) :: rest, warnings)

/-- The text up to a mark and a closing bracket, neither of them escaped, and what follows. -/
def upTo? (mark : Char) : List (Char × Bool) → Option (Raw × List (Char × Bool))
  | (c, e) :: rest =>
    if (c, e) = (mark, false) && rest.head? = some (']', false) then some ([], rest.drop 1)
    else (upTo? mark rest).map fun r => (c :: r.1, r.2)
  | [] => none

/-- A star, digits and a closing bracket are next. -/
def isStarred : List (Char × Bool) → Bool
  | ('*', false) :: rest => (rest.dropWhile fun c => c.1.isDigit && !c.2).head? = some (']', false)
  | _ => false

/-- The number of a repetition: octal if it begins with a zero. Zero is as good as none. -/
def count? (digits : Raw) : Option (Option Nat) :=
  let some? (n : Nat) : Option Nat := if n = 0 then none else some n
  if digits.isEmpty then some none
  else if digits.head? = some '0' then
    if digits.all isOctal then some (some? (digits.foldl (fun n c => 8 * n + octalValue c) 0)) else none
  else (Raw.decimal? digits).map some?

/-- A repetition, behind its opening bracket. -/
def repetition? : List (Char × Bool) → Option (Except SetFault (SetItem × List (Char × Bool)))
  | (c, _) :: ('*', false) :: rest =>
    let digits := rest.takeWhile fun d => !d.2 && d.1 ≠ ']'
    match rest.drop digits.length with
    | (']', false) :: behind =>
      match count? (digits.map (·.1)) with
      | some count => some (.ok (repeated c count, behind))
      | none => some (.error (.invalidCount (digits.map (·.1))))
    | _ => none
  | _ => none

/-- A class or equivalents, behind the opening bracket and the mark. -/
def bracketed? (mark : Char) (inside : List (Char × Bool)) : Option (Except SetFault (SetItem × List (Char × Bool))) :=
  match upTo? mark inside with
  | none => none
  | some (text, behind) =>
    if text.isEmpty then some (.error (if mark = ':' then .noClassName else .noEquivalent))
    else if mark = ':' then
      match ByteClass.named? text with
      | some k => some (.ok (named k, behind))
      | none => if isStarred inside then none else some (.error (.unknownClass text))
    else
      match text with
      | [c] => some (.ok (equivalent c, behind))
      | _ => if isStarred inside then none else some (.error (.longEquivalent text))

/-- What stands in brackets at the front, if it is something else than characters. -/
def special? : List (Char × Bool) → Option (Except SetFault (SetItem × List (Char × Bool)))
  | ('[', false) :: rest =>
    let inside := match rest with
      | (':', false) :: inside => bracketed? ':' inside
      | ('=', false) :: inside => bracketed? '=' inside
      | _ => none
    inside.or (repetition? rest)
  | _ => none

/-- The items that bytes are; `n` bounds their number. -/
def itemsWithin : Nat → List (Char × Bool) → Except SetFault (List SetItem)
  | 0, _ => .ok []
  | n + 1, cs =>
    match cs with
    | a :: b :: c :: rest =>
      match special? (a :: b :: c :: rest) with
      | some (.error f) => .error f
      | some (.ok (item, behind)) => (itemsWithin n behind).map (item :: ·)
      | none =>
        if b = ('-', false) then
          if c.1 < a.1 then .error (.reversedRange a.1 c.1) else (itemsWithin n rest).map (range a.1 c.1 :: ·)
        else (itemsWithin n (b :: c :: rest)).map (byte a.1 :: ·)
    | _ => .ok (cs.map fun c => byte c.1)

/-- The items of the text of a set, and the warnings about it. -/
def items (text : Raw) : List Raw × Except SetFault (List SetItem) :=
  let (cs, warnings) := unescape text
  (warnings, itemsWithin cs.length cs)

end SetItem

end ScriptLoader.Program
