import ScriptLoader.Process.Raw

/-!
# Quantities

Numbers in the arguments of programs, perhaps with a unit behind them: `b` is a block of 512, `K`, `M` and so on are powers of 1024, or
of 1000 where a `B` follows. A unit alone counts once.
-/

namespace ScriptLoader.Program

/-- Why a text is no quantity. -/
inductive QuantityFault where
  | invalid
  | tooLarge
  deriving DecidableEq, Repr

/-- What is said behind the report that a quantity is invalid. -/
def QuantityFault.remark : QuantityFault → Raw
  | invalid => []
  | tooLarge => ": Value too large for defined data type"

/-- The largest quantity. -/
def maxQuantity : Nat := 18446744073709551615

/-- The power that a unit stands for. -/
def unitPower? (c : Char) : Option Nat :=
  [('k', 1), ('K', 1), ('M', 2), ('m', 2), ('G', 3), ('T', 4), ('P', 5), ('E', 6), ('Z', 7), ('Y', 8)].lookup c

/-- The size of the unit that a text is, and whether something follows it. -/
def unit? (cs : Raw) : Option (Nat × Bool) :=
  match cs with
  | [] => some (1, false)
  | 'b' :: cs => some (512, !cs.isEmpty)
  | c :: cs =>
    match unitPower? c, cs with
    | some n, 'i' :: 'B' :: cs => some (Nat.pow 1024 n, !cs.isEmpty)
    | some n, 'B' :: cs => some (Nat.pow 1000 n, !cs.isEmpty)
    | some n, 'D' :: cs => some (Nat.pow 1000 n, !cs.isEmpty)
    | some n, cs => some (Nat.pow 1024 n, !cs.isEmpty)
    | none, _ => none

/-- The quantity that a text is. -/
def quantity? (text : Raw) : Except QuantityFault Nat :=
  let cs := text.dropWhile Raw.isSpace
  let cs := if cs.head? = some '+' then cs.drop 1 else cs
  let digits := cs.takeWhile Char.isDigit
  let behind := cs.drop digits.length
  let read (n : Nat) (unit : Raw) : Except QuantityFault Nat :=
    match unit? unit with
    | none => .error .invalid
    | some (_, true) => .error .invalid
    | some (size, false) => if maxQuantity < n * size then .error .tooLarge else .ok (n * size)
  match Raw.decimal? digits with
  | some n => read n behind
  | none => if text.isEmpty then .error .invalid else read 1 text

end ScriptLoader.Program
