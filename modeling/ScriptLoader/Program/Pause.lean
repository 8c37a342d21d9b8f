import ScriptLoader.Process.Arguments
import ScriptLoader.Process.Marked
import ScriptLoader.Process.Routine

/-!
# Pauses

The program `sleep` lets time pass, and does nothing else.
-/

namespace ScriptLoader.Program.Pause

open Routine

/-- Its name. -/
def name : Raw := "sleep"

/-- It has no options. -/
def options : OptionTable := ⟨[], [], false⟩

/-- How long a pause is. -/
inductive Duration where
  | milliseconds (n : Nat)
  | forever
  deriving DecidableEq, Repr

/-- Two pauses, one after the other. -/
def Duration.add : Duration → Duration → Duration
  | milliseconds m, milliseconds n => milliseconds (m + n)
  | _, _ => forever

/-- The milliseconds of a unit of time. -/
def unit? (cs : Raw) : Option Nat :=
  match cs with
  | [] | ['s'] => some 1000
  | ['m'] => some 60000
  | ['h'] => some 3600000
  | ['d'] => some 86400000
  | _ => none

/-- A decimal number with a fraction, as a whole number and how many of its digits stand behind the point, and what follows. -/
def decimal? (cs : Raw) : Option (Nat × Nat × Raw) :=
  let whole := cs.takeWhile Char.isDigit
  let behind := cs.drop whole.length
  let part := if behind.head? = some '.' then (behind.drop 1).takeWhile Char.isDigit else []
  let behind := if behind.head? = some '.' then behind.drop (1 + part.length) else behind
  (Raw.decimal? (whole ++ part)).map fun n => (n, part.length, behind)

/-- The exponent at the front, and what follows. -/
def exponent (cs : Raw) : Int × Raw :=
  match cs with
  | e :: rest =>
    let negative := rest.head? = some '-'
    let rest := if negative || rest.head? = some '+' then rest.drop 1 else rest
    let digits := rest.takeWhile Char.isDigit
    match if e = 'e' || e = 'E' then Raw.decimal? digits else none with
    | some n => (if negative then -(n : Int) else n, rest.drop digits.length)
    | none => (0, cs)
  | [] => (0, [])

/-- The largest power of ten that is told from eternity. -/
def longest : Int := 30

/-- The pause that an argument asks for. -/
def duration? (text : Raw) : Option Duration :=
  let cs := text.dropWhile Raw.isSpace
  let cs := if cs.head? = some '+' then cs.drop 1 else cs
  match ["infinity".toList, "inf".toList].find? (·.isPrefixOf (cs.map Char.toLower)) with
  | some word => (unit? (cs.drop word.length)).map fun _ => .forever
  | none => do
    let (n, places, behind) ← decimal? cs
    let (power, behind) := exponent behind
    let size ← unit? behind
    let power := power - places
    return if n = 0 then .milliseconds 0
      else if longest < power then .forever
      else if 0 ≤ power then .milliseconds (n * size * Nat.pow 10 power.toNat)
      else if power < -400 then .milliseconds 0
      else .milliseconds (n * size / Nat.pow 10 (-power).toNat)

/-- The program; without a result it goes on forever. A mark that only ends the options is an argument, so that the program then does not
miss an operand. -/
def run (args : List Raw) : Routine (Option Nat) := do
  let a := options.read args
  match a.fault with
  | some f =>
    complainOfUse name f.message
    return some 1
  | none =>
    if args.isEmpty then
      complainOfUse name "missing operand"
      return some 1
    let bad := a.operands.filter fun x => (duration? x).isNone
    if !bad.isEmpty then
      bad.forM fun x => complainAs name ("invalid time interval " ++ Marked.quoted x)
      complain "Try 'sleep --help' for more information."
      return some 1
    match (a.operands.filterMap duration?).foldl Duration.add (.milliseconds 0) with
    | .forever => return none
    | .milliseconds n =>
      modify fun p => { p with machine := p.machine.advance (p.machine.elapsed + n) }
      return some 0

end ScriptLoader.Program.Pause
