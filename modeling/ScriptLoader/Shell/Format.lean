import ScriptLoader.Shell.Decimal
import ScriptLoader.Shell.Escapes

/-!
# Formats

A format is text with escapes and with places for words. Each place says how its word is read, as text, as a whole number or as a number
with a fraction, and how it is written. The format is used again as long as there are words left.
-/

namespace ScriptLoader.Shell

/-- How wide a place is, or how many digits it has: nothing is said, a number, or a word. -/
inductive Extent where
  | none
  | number (n : Nat)
  | word
  deriving DecidableEq, Repr

/-- A place: marks that change how a word is written, its width, its precision, the letter of its kind, and what stands before that letter
from a star on that is out of place. -/
structure Place where
  marks : Raw
  width : Extent
  precision : Extent
  kind : Char
  stray : Raw
  deriving DecidableEq, Repr

/-- A piece of a format: a character, a place, or what makes the format none, with the width and the precision of what would be a place.
-/
inductive FormatPiece where
  | char (c : Char)
  | place (p : Place)
  | fault (width precision : Extent) (message : Raw)
  deriving DecidableEq, Repr

namespace FormatPiece

/-- A width or precision, what stands behind it from a star on that is out of place, and what follows. -/
def extent (cs : Raw) : Extent × Raw × Raw :=
  match cs with
  | '*' :: cs => (.word, [], cs)
  | _ =>
    let run := cs.takeWhile fun c => c.isDigit || c = '*'
    ((Raw.decimal? (run.takeWhile Char.isDigit)).elim .none .number, run.dropWhile Char.isDigit, cs.drop run.length)

/-- The kinds of places. -/
def kinds : List Char := "bcsdiouxXaAeEfFgG".toList

/-- A place behind its percent sign, and what follows. -/
def placeAt (cs : Raw) : FormatPiece × Raw :=
  let marks := cs.takeWhile ("#-+ 0".toList.contains ·)
  let (width, stray, behind) := extent (cs.drop marks.length)
  let (precision, more, behind) :=
    match behind with
    | '.' :: behind =>
      let (e, more, behind) := extent behind
      (if e = .none then .number 0 else e, more, behind)
    | _ => (.none, [], behind)
  match behind with
  | [] => (.fault width precision "missing format character", [])
  | kind :: rest =>
    let text := cs.take (cs.length - rest.length)
    if !kinds.contains kind then (.fault width precision ('%' :: text ++ ": invalid directive"), [])
    else if stray.isEmpty then (.place ⟨marks, width, precision, kind, more⟩, rest)
    else (.place ⟨marks, width, .none, kind, (text.drop marks.length).dropLast.dropWhile Char.isDigit⟩, rest)

/-- The pieces of a format; `n` bounds their number. -/
def piecesWithin : Nat → Raw → List FormatPiece
  | 0, _ => []
  | n + 1, cs =>
    match cs with
    | [] => []
    | '\\' :: cs =>
      let (c, rest) := escaped cs
      char c :: piecesWithin n rest
    | '%' :: '%' :: cs => char '%' :: piecesWithin n cs
    | '%' :: cs =>
      let (piece, rest) := placeAt cs
      piece :: piecesWithin n rest
    | c :: cs => char c :: piecesWithin n cs

/-- The pieces of a format. -/
def pieces (cs : Raw) : List FormatPiece := piecesWithin cs.length cs

end FormatPiece

/-- What printing has come to: the words that are left, the output, the complaints, whether all words were good, and whether it is over.
-/
structure Printing where
  words : List Raw
  output : Raw
  complaints : List Raw
  well : Bool
  closed : Bool
  deriving DecidableEq, Repr

namespace Printing

/-- The next word is taken. -/
def take (p : Printing) : Option Raw × Printing := (p.words.head?, { p with words := p.words.drop 1 })

/-- A complaint about a word. -/
def complain (p : Printing) (message : Raw) : Printing := { p with complaints := p.complaints ++ [message], well := false }

/-- Complains about what follows a number in a word. -/
def check (p : Printing) (word rest : Raw) (outOfRange : Bool) : Printing :=
  if rest.isEmpty then if outOfRange then p.complain (word ++ ": Numerical result out of range") else p
  else if rest.length = word.length then p.complain (word ++ ": expected numeric value")
  else p.complain (word ++ ": not completely converted")

/-- The value of a whole number at the front of a word, whether it has a minus sign, and what follows it; all of the word follows if there
is none. -/
def wholeAt (word : Raw) : Nat × Bool × Raw :=
  let cs := word.dropWhile Raw.isSpace
  let negative := cs.head? = some '-'
  let ds := if negative || cs.head? = some '+' then cs.drop 1 else cs
  let read (base : Nat) (ds : Raw) : Nat × Bool × Raw :=
    let digits := ds.takeWhile fun c => Decimal.digitValue c < base
    (digits.foldl (fun n c => base * n + Decimal.digitValue c) 0, negative, ds.drop digits.length)
  match ds with
  | '0' :: x :: c :: rest => if (x = 'x' || x = 'X') && Decimal.digitValue c < 16 then read 16 (c :: rest) else read 8 ds
  | '0' :: _ => read 8 ds
  | c :: _ => if c.isDigit then read 10 ds else (0, false, word)
  | [] => (0, false, word)

/-- The next word as a whole number, signed or not. -/
def takeWhole (p : Printing) (signed : Bool) : Int × Printing :=
  match p.take with
  | (none, p) => (0, p)
  | (some word, p) =>
    if word.head? = some '\x22' || word.head? = some '\'' then (((word.drop 1).head?.map fun c => (c.toNat : Int)).getD 0, p)
    else
      let (n, negative, rest) := wholeAt word
      if signed then
        let limit := if negative then 9223372036854775808 else 9223372036854775807
        let m := min n limit
        (if negative then -(m : Int) else m, p.check word rest (limit < n))
      else
        let m := min n 18446744073709551615
        (if negative && n ≤ 18446744073709551615 then (18446744073709551616 - (m : Int)) % 18446744073709551616 else m,
          p.check word rest (18446744073709551615 < n))

/-- The next word as a number with a fraction. -/
def takeDecimal (p : Printing) : Decimal × Printing :=
  match p.take with
  | (none, p) => (⟨false, .finite 0 0⟩, p)
  | (some word, p) =>
    if word.head? = some '\x22' || word.head? = some '\'' then
      (⟨false, .ofQuotient ((word.drop 1).head?.map Char.toNat |>.getD 0) 1⟩, p)
    else
      match Decimal.at? word with
      | some (d, misses, rest) => (d, p.check word rest misses)
      | none => (⟨false, .finite 0 0⟩, p.check word word false)

/-- The output with more behind it. -/
def write (p : Printing) (cs : Raw) : Printing := { p with output := p.output ++ cs }

end Printing

/-- How a place is filled: with a width, to the left, and with zeros in front. -/
structure Filling where
  width : Nat
  left : Bool
  zeros : Bool
  deriving DecidableEq, Repr

/-- A text in a place. -/
def Filling.fill (f : Filling) (front body : Raw) : Raw :=
  let missing := f.width - (front ++ body).length
  if f.left then front ++ body ++ List.replicate missing ' '
  else if f.zeros then front ++ List.replicate missing '0' ++ body
  else List.replicate missing ' ' ++ front ++ body

namespace Place

/-- A mark stands in the place. -/
def has (p : Place) (c : Char) : Bool := p.marks.contains c

/-- The sign of a number. -/
def sign (p : Place) (negative : Bool) : Raw := if negative then ['-'] else if p.has '+' then ['+'] else if p.has ' ' then [' '] else []

/-- The digits of a whole number, with zeros in front up to the precision. -/
def digits (precision : Option Nat) (base : Nat) (n : Nat) : Raw :=
  let ds := if n = 0 && precision = some 0 then [] else Nat.toDigits base n
  List.replicate (precision.getD 1 - ds.length) '0' ++ ds

/-- A whole number without a sign, in the digits of a base, and what stands before it. -/
def unsigned (p : Place) (precision : Option Nat) (n : Nat) : Raw × Raw :=
  if p.kind = 'o' then
    let ds := digits precision 8 n
    ([], if p.has '#' && ds.head? ≠ some '0' then '0' :: ds else ds)
  else if p.kind = 'x' then (if p.has '#' && n ≠ 0 then ['0', 'x'] else [], digits precision 16 n)
  else if p.kind = 'X' then (if p.has '#' && n ≠ 0 then ['0', 'X'] else [], (digits precision 16 n).map Char.toUpper)
  else ([], digits precision 10 n)

/-- A number with a fraction, and its sign. -/
def decimal (p : Place) (precision : Option Nat) (d : Decimal) : Raw × Raw :=
  let cased (text : Raw) : Raw := if p.kind.isUpper then text.map Char.toUpper else text
  match p.kind.toLower, d.magnitude with
  | 'a', .finite mantissa power =>
    (p.sign d.negative ++ cased ['0', 'x'], cased (Decimal.hexadecimal precision (p.has '#') mantissa power))
  | kind, m => (p.sign d.negative, cased (Decimal.text kind (precision.getD 6) (p.has '#') m))

/-- What a place looks like that has a star out of place: it is written as it stands. -/
def literal (p : Place) (width precision : Option Int) : Raw :=
  let width := width.getD 0
  let left := p.has '-' || width < 0
  ['%'] ++ (if p.has '#' then ['#'] else []) ++ p.sign false ++ (if left then ['-'] else if p.has '0' then ['0'] else []) ++
    (if width = 0 then [] else Raw.ofNat width.natAbs) ++
    (match precision with
      | some n => if n < 0 then [] else '.' :: Raw.ofInt n
      | none => []) ++
    p.stray ++ (if p.kind = 'b' then ['s'] else if "dioxuX".toList.contains p.kind then ['l', p.kind] else [p.kind])

end Place

namespace Printing

/-- The value of a width or precision, which may be the next word. -/
def takeExtent (p : Printing) (e : Extent) : Option Int × Printing :=
  match e with
  | .none => (none, p)
  | .number n => (some n, p)
  | .word =>
    let (n, p) := p.takeWhole true
    (some n, p)

/-- Writes the next word into a place. -/
def fill (p : Printing) (place : Place) : Printing :=
  let (asked, p) := p.takeExtent place.width
  let (digits, p) := p.takeExtent place.precision
  let width := asked.getD 0
  let precision : Option Nat := digits.bind fun n => if n < 0 then none else some n.toNat
  let left := place.has '-' || width < 0
  let text : Filling := ⟨width.natAbs, left, false⟩
  let whole : Filling := ⟨width.natAbs, left, place.has '0' && precision.isNone⟩
  let cut (cs : Raw) : Raw := match precision with
    | some n => cs.take n
    | none => cs
  if !place.stray.isEmpty then
    let p := if "diouxX".toList.contains place.kind then (p.takeWhole (place.kind = 'd' || place.kind = 'i')).2
      else if "bcs".toList.contains place.kind then p.take.2
      else p.takeDecimal.2
    p.write (place.literal asked digits)
  else if place.kind = 's' then
    let (word, p) := p.take
    p.write (text.fill [] (cut (word.getD [])))
  else if place.kind = 'b' then
    let (word, p) := p.take
    let (cs, ended) := unescaped (word.getD [])
    { p.write (text.fill [] (cut cs)) with closed := ended }
  else if place.kind = 'c' then
    let (word, p) := p.take
    p.write (text.fill [] [((word.getD []).head?).getD '\x00'])
  else if place.kind = 'd' || place.kind = 'i' then
    let (n, p) := p.takeWhole true
    p.write (whole.fill (place.sign (n < 0)) (Place.digits precision 10 n.natAbs))
  else if "ouxX".toList.contains place.kind then
    let (n, p) := p.takeWhole false
    let (front, body) := place.unsigned precision n.toNat
    p.write (whole.fill front body)
  else
    let (d, p) := p.takeDecimal
    let (front, body) := place.decimal precision d
    let finite := match d.magnitude with
      | .finite _ _ => true
      | _ => false
    p.write (Filling.fill ⟨width.natAbs, left, place.has '0' && finite⟩ front body)

/-- Prints pieces once, up to the end of all printing or to what makes the format none. -/
def pass (p : Printing) : List FormatPiece → Except (Printing × Raw) Printing
  | [] => .ok p
  | piece :: pieces =>
    if p.closed then .ok p
    else
      match piece with
      | .char c => (p.write [c]).pass pieces
      | .place place => (p.fill place).pass pieces
      | .fault width precision message => .error (((p.takeExtent width).2.takeExtent precision).2, message)

/-- Prints pieces as often as there are words left for them; `n` bounds how often. -/
def passes (pieces : List FormatPiece) : Nat → Printing → Except (Printing × Raw) Printing
  | 0, p => .ok p
  | n + 1, p =>
    match p.pass pieces with
    | .error e => .error e
    | .ok q => if q.closed || q.words.isEmpty || q.words.length = p.words.length then .ok q else passes pieces n q

end Printing

/-- What becomes of a format and words: the printing, and the report about a format that is none. -/
def printFormat (format : Raw) (words : List Raw) : Printing × Option Raw :=
  match Printing.passes (FormatPiece.pieces format) (words.length + 1) ⟨words, [], [], true, false⟩ with
  | .ok p => (p, none)
  | .error (p, message) => (p, some message)

/-- Words with blanks between them and a line feed, which a first word can forbid; an escape can end all. -/
def echoText (words : List Raw) : Raw :=
  let silent := words.head? = some ['-', 'n']
  let words := if silent then words.drop 1 else words
  let (text, ended) := unescaped (Raw.join [' '] words)
  if ended || silent then text else text ++ ['\n']

end ScriptLoader.Shell
