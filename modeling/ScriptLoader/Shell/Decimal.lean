import ScriptLoader.Process.Raw

/-!
# Numbers with a fraction

Numbers are read into the nearest one with 53 binary digits and written in decimal digits, rounded to the nearest one there. Everything
in between is exact: a number is a whole number times a power of two.
-/

namespace ScriptLoader.Shell

/-- A quotient rounded to the nearest whole number; a half goes to the even one. -/
def roundedQuotient (a b : Nat) : Nat :=
  let q := a / b
  let twice := 2 * (a % b)
  if twice < b then q else if b < twice then q + 1 else if q % 2 = 0 then q else q + 1

/-- A number of 53 binary digits: a whole number times two to a power, or none, or infinite. -/
inductive Magnitude where
  | finite (mantissa : Nat) (power : Int)
  | infinite
  | undefined
  deriving DecidableEq, Repr

/-- A number with a sign. -/
structure Decimal where
  negative : Bool
  magnitude : Magnitude
  deriving DecidableEq, Repr

namespace Magnitude

/-- The nearest number to a quotient of whole numbers. -/
def ofQuotient (a b : Nat) : Magnitude :=
  if a = 0 then finite 0 0
  else
    let guess : Int := (Nat.log2 a : Int) - (Nat.log2 b : Int) - 53
    let scaled (power : Int) : Nat :=
      if 0 ≤ power then roundedQuotient a (b * Nat.pow 2 power.toNat) else roundedQuotient (a * Nat.pow 2 (-power).toNat) b
    let power := if scaled (max guess (-1074)) < 9007199254740992 then guess else guess + 1
    let power := max power (-1074)
    let m := scaled power
    let (m, power) := if m = 9007199254740992 then (4503599627370496, power + 1) else (m, power)
    if 971 < power then infinite else finite m power

/-- A finite number as a quotient. -/
def quotient (mantissa : Nat) (power : Int) : Nat × Nat :=
  if 0 ≤ power then (mantissa * Nat.pow 2 power.toNat, 1) else (mantissa, Nat.pow 2 (-power).toNat)

/-- The quotient is not the number `m`, because it is too large or so small that digits are lost. -/
def misses (m : Magnitude) (a b : Nat) : Bool :=
  match m with
  | .infinite => true
  | .undefined => false
  | .finite mantissa power =>
    let (n, d) := quotient mantissa power
    mantissa < 4503599627370496 && n * b ≠ a * d

end Magnitude

namespace Decimal

/-- The digits of a number with so many places behind the point. -/
def fixed (places : Nat) (a b : Nat) : Raw × Raw :=
  let n := roundedQuotient (a * Nat.pow 10 places) b
  let digits := Raw.ofNat n
  let digits := List.replicate (places + 1 - digits.length) '0' ++ digits
  (digits.take (digits.length - places), digits.drop (digits.length - places))

/-- The first digit, so many places behind the point, and the power of ten of a number. -/
def scientific (places : Nat) (a b : Nat) : Raw × Raw × Int :=
  if a = 0 then (['0'], List.replicate places '0', 0)
  else
    let scaled (power : Int) : Nat :=
      let shift := (places : Int) - power
      if 0 ≤ shift then roundedQuotient (a * Nat.pow 10 shift.toNat) b else roundedQuotient a (b * Nat.pow 10 (-shift).toNat)
    let guess : Int := ((Raw.ofNat a).length : Int) - ((Raw.ofNat b).length : Int)
    let isBelow (power : Int) : Bool := if 0 ≤ power then a < b * Nat.pow 10 power.toNat else a * Nat.pow 10 (-power).toNat < b
    let power := if isBelow guess then guess - 1 else guess
    let digits := Raw.ofNat (scaled power)
    let (digits, power) := if places + 1 < digits.length then (digits.dropLast, power + 1) else (digits, power)
    (digits.take 1, digits.drop 1, power)

/-- A power of ten as it is written, with at least two digits. -/
def powerText (power : Int) : Raw :=
  let digits := Raw.ofNat power.natAbs
  'e' :: (if power < 0 then '-' else '+') :: (List.replicate (2 - digits.length) '0' ++ digits)

/-- Digits with a point between them; it is left out where nothing follows, unless it is kept. -/
def pointed (keep : Bool) (whole part : Raw) : Raw := if part.isEmpty && !keep then whole else whole ++ '.' :: part

/-- Digits without zeros at the end. -/
def withoutZeros (part : Raw) : Raw := (part.reverse.dropWhile (· = '0')).reverse

/-- A number in hexadecimal digits without its sign and its mark, with so many places or as many as it needs: a digit, its places, and a
power of two. -/
def hexadecimal (places : Option Nat) (keep : Bool) (mantissa : Nat) (power : Int) : Raw :=
  let power : Int := if mantissa = 0 then 0 else power + 52
  let kept := min (places.getD 13) 13
  let n := roundedQuotient mantissa (Nat.pow 16 (13 - kept))
  let unit := Nat.pow 16 kept
  let digits := (Nat.toDigits 16 (n % unit)).map Char.toLower
  let part := if kept = 0 then [] else List.replicate (kept - digits.length) '0' ++ digits
  let part := match places with
    | some p => part ++ List.replicate (p - kept) '0'
    | none => withoutZeros part
  pointed keep (Raw.ofNat (n / unit)) part ++ ['p', if power < 0 then '-' else '+'] ++ Raw.ofNat power.natAbs

/-- A number as it is written without its sign: with places behind the point (`f`), with a power of ten (`e`), or the shorter of both with
so many digits in all (`g`). -/
def text (style : Char) (places : Nat) (keep : Bool) (m : Magnitude) : Raw :=
  match m with
  | .infinite => "inf"
  | .undefined => "nan"
  | .finite mantissa power =>
    let (a, b) := Magnitude.quotient mantissa power
    if style = 'f' then
      let (whole, part) := fixed places a b
      pointed keep whole part
    else if style = 'e' then
      let (whole, part, power) := scientific places a b
      pointed keep whole part ++ powerText power
    else
      let places := max places 1
      let trimmed (part : Raw) : Raw := if keep then part else withoutZeros part
      let (whole, part, power) := scientific (places - 1) a b
      if power < -4 || (places : Int) ≤ power then pointed keep whole (trimmed part) ++ powerText power
      else
        let (whole, part) := fixed ((places : Int) - 1 - power).toNat a b
        pointed keep whole (trimmed part)

/-- The value of a digit in any base up to sixteen. -/
def digitValue (c : Char) : Nat :=
  if c.isDigit then c.toNat - 48 else if 'a' ≤ c && c ≤ 'f' then c.toNat - 87 else if 'A' ≤ c && c ≤ 'F' then c.toNat - 55 else 16

/-- An exponent behind one of two letters, and what follows; without one it is zero. -/
def exponentAt (letter : Char) (cs : Raw) : Int × Raw :=
  match cs with
  | e :: rest =>
    let negative := rest.head? = some '-'
    let rest := if negative || rest.head? = some '+' then rest.drop 1 else rest
    let digits := rest.takeWhile Char.isDigit
    match if e.toLower = letter then Raw.decimal? digits else none with
    | some n =>
      let n := min n 100000
      (if negative then -(n : Int) else n, rest.drop digits.length)
    | none => (0, cs)
  | [] => (0, [])

/-- A number at the front of a text: the number, whether it misses what is written, and what follows. -/
structure Found where
  value : Magnitude
  misses : Bool
  rest : Raw

/-- The number in digits of a base at the front. The exponent behind `letter` is one of `step`. -/
def magnitudeAt? (base step : Nat) (letter : Char) (cs : Raw) : Option Found :=
  let isDigit (c : Char) : Bool := digitValue c < base
  let whole := cs.takeWhile isDigit
  let behind := cs.drop whole.length
  let part := if behind.head? = some '.' then (behind.drop 1).takeWhile isDigit else []
  let behind := if behind.head? = some '.' then behind.drop (1 + part.length) else behind
  if (whole ++ part).isEmpty then none
  else
    let n := (whole ++ part).foldl (fun n c => base * n + digitValue c) 0
    let (power, behind) := exponentAt letter behind
    let size := Nat.pow step power.natAbs
    let places := Nat.pow base part.length
    let (a, b) := if 0 ≤ power then (n * size, places) else (n, places * size)
    let m := Magnitude.ofQuotient a b
    some ⟨m, m.misses a b, behind⟩

/-- The number at the front of a text, whether it misses what is written, and what follows. -/
def at? (text : Raw) : Option (Decimal × Bool × Raw) :=
  let cs := text.dropWhile Raw.isSpace
  let negative := cs.head? = some '-'
  let cs := if negative || cs.head? = some '+' then cs.drop 1 else cs
  let low := cs.map Char.toLower
  match [("infinity", Magnitude.infinite), ("inf", .infinite), ("nan", .undefined)].find? fun e => e.1.toList.isPrefixOf low with
  | some (word, m) => some (⟨negative, m⟩, false, cs.drop word.length)
  | none =>
    let inHexadecimal :=
      match cs with
      | '0' :: x :: rest => if x = 'x' || x = 'X' then magnitudeAt? 16 2 'p' rest else none
      | _ => none
    (inHexadecimal.or (magnitudeAt? 10 10 'e' cs)).map fun r => (⟨negative, r.value⟩, r.misses, r.rest)

end Decimal

end ScriptLoader.Shell
