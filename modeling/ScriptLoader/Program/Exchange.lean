import ScriptLoader.Process.Arguments
import ScriptLoader.Process.Routine
import ScriptLoader.Program.ByteSet

/-!
# Exchange of bytes

The program `tr` puts the bytes of a second set in the place of those of a first one, deletes bytes, or makes one of many equal ones in a
row. Classes of letters stand for one another as a whole; otherwise the sets are exchanged byte by byte, and a second set that is too
short goes on with its last byte.
-/

namespace ScriptLoader.Program.Exchange

open Routine

/-- Its name. -/
def name : Raw := "tr"

/-- Its options. -/
def options : OptionTable where
  letters := "AcCdst".toList.map fun c => (c, false)
  words := [⟨"complement", false, 'c'⟩, ⟨"delete", false, 'd'⟩, ⟨"squeeze-repeats", false, 's'⟩, ⟨"truncate-set1", false, 't'⟩]
  ordered := true

/-- What is asked for. -/
structure Request where
  complement : Bool
  delete : Bool
  squeeze : Bool
  truncate : Bool
  deriving DecidableEq, Repr

/-- The request of the options. -/
def Request.ofArguments (a : Arguments) : Request := ⟨a.has 'c' || a.has 'C', a.has 'd', a.has 's', a.has 't'⟩

/-- What is wrong with the operands. -/
inductive OperandFault where
  | missing
  | missingBehind (operand : Raw) (squeeze : Bool)
  | extra (operand : Raw) (onlyOne : Bool)
  deriving DecidableEq, Repr

/-- The report of a fault, in lines. -/
def OperandFault.message : OperandFault → Raw
  | missing => "missing operand"
  | missingBehind operand squeeze =>
    "missing operand after " ++ Marked.quoted operand ++ "\nTwo strings must be given when " ++
      (if squeeze then "both deleting and squeezing repeats." else "translating.").toList
  | extra operand onlyOne =>
    "extra operand " ++ Marked.quoted operand ++
      (if onlyOne then "\nOnly one string may be given when deleting without squeezing repeats." else "").toList

/-- The sets among the operands, if there are as many as the request needs. -/
def Request.sets? (r : Request) (operands : List Raw) : Except OperandFault (Raw × Option Raw) :=
  match operands with
  | [] => .error .missing
  | [a] => if r.delete = r.squeeze then .error (.missingBehind a r.squeeze) else .ok (a, none)
  | [a, b] => if r.delete && !r.squeeze then .error (.extra b true) else .ok (a, some b)
  | _ :: b :: c :: _ => .error (.extra (if r.delete && !r.squeeze then b else c) false)

/-- What is wrong with a pair of sets. -/
inductive PairFault where
  | indefiniteFirst
  | manyIndefinite
  | equivalents
  | restrictedClass
  | misaligned
  | emptySecond
  | endsInClass
  | manyValues
  | indefiniteUnused
  deriving DecidableEq, Repr

/-- The report of a fault. -/
def PairFault.message : PairFault → Raw
  | indefiniteFirst => "the [c*] repeat construct may not appear in string1"
  | manyIndefinite => "only one [c*] repeat construct may appear in string2"
  | equivalents => "[=c=] expressions may not appear in string2 when translating"
  | restrictedClass => "when translating, the only character classes that may appear in\nstring2 are 'upper' and 'lower'"
  | misaligned => "misaligned [:upper:] and/or [:lower:] construct"
  | emptySecond => "when not truncating set1, string2 must be non-empty"
  | endsInClass => "when translating with string1 longer than string2,\nthe latter string must not end with a character class"
  | manyValues =>
    "when translating with complemented character classes,\nstring2 must map all characters in the domain to one"
  | indefiniteUnused => "the [c*] construct may appear in string2 only when translating"

/-- The bytes of items. -/
def bytesOf (items : List SetItem) : Raw := items.flatMap SetItem.bytes

/-- The items have a repetition without a number. -/
def isIndefinite : SetItem → Bool
  | .repeated _ none => true
  | _ => false

/-- The items with the repetition without a number as long as it takes to get to a length. -/
def stretched (length : Nat) (items : List SetItem) : List SetItem :=
  items.map fun i =>
    match i with
    | .repeated c none => .repeated c (some (length - (bytesOf items).length))
    | i => i

/-- A place in a set: a byte, perhaps the first or a later one of a class of letters. -/
structure Slot where
  byte : Char
  letters : Option ByteClass
  first : Bool
  deriving DecidableEq, Repr

/-- The places of an item. -/
def slotsOf (item : SetItem) : List Slot :=
  match item with
  | .named k =>
    if k = .lower || k = .upper then
      match item.bytes with
      | c :: cs => ⟨c, some k, true⟩ :: cs.map fun c => ⟨c, some k, false⟩
      | [] => []
    else item.bytes.map fun c => ⟨c, none, true⟩
  | _ => item.bytes.map fun c => ⟨c, none, true⟩

/-- What is exchanged: a byte for a byte, or the letters of a case for those of the other. -/
inductive Pair where
  | bytes (a b : Char)
  | cases (a b : ByteClass)
  deriving DecidableEq, Repr

/-- What is behind a class of letters. -/
def behindClass (slots : List Slot) : List Slot := (slots.drop 1).dropWhile fun s => !s.first

/-- The pairs of two sets, as long as there are places in both, and how many places of the first one are left; `n` bounds the number
of pairs. -/
def pairs : Nat → List Slot → List Slot → Except PairFault (List Pair × List Slot)
  | 0, as, _ => .ok ([], as)
  | n + 1, as, bs =>
    match bs with
    | [] => .ok ([], as)
    | b :: bs =>
      match b.letters, as with
      | some k, a :: as =>
        match a.letters with
        | some j =>
          if a.first then (pairs n (behindClass (a :: as)) (behindClass (b :: bs))).map fun r => (.cases j k :: r.1, r.2)
          else .error .misaligned
        | none => .error .misaligned
      | some _, [] => .error .misaligned
      | none, a :: as => (pairs n as bs).map fun r => (.bytes a.byte b.byte :: r.1, r.2)
      | none, [] => .ok ([], [])

/-- A table that tells for each byte what becomes of it. -/
abbrev ByteTable := Array Char

/-- Every byte stays as it is. -/
def ByteTable.same : ByteTable := allBytes.toArray

/-- What becomes of a byte. -/
def ByteTable.look (t : ByteTable) (c : Char) : Char := t.getD c.toNat c

/-- The table with one more pair. -/
def ByteTable.add (t : ByteTable) : Pair → ByteTable
  | .bytes a b => t.setIfInBounds a.toNat b
  | .cases j k =>
    match j.otherCase? with
    | some (other, change) => if k = other then (allBytes.filter j.contains).foldl (fun t c => t.setIfInBounds c.toNat (change c)) t else t
    | none => t

/-- The byte with which a set that is too short goes on. -/
def lastByte? (items : List SetItem) : Except PairFault (Option Char) :=
  match items.getLast? with
  | some (.named _) => .error .endsInClass
  | some item => .ok (item.bytes.getLast?.or (match item with
    | .repeated c _ => some c
    | _ => none))
  | none => .ok none

/-- The items are a class that is not one of letters. -/
def isRestricted : SetItem → Bool
  | .named k => k ≠ .upper && k ≠ .lower
  | _ => false

/-- The items are equivalents. -/
def isEquivalent : SetItem → Bool
  | .equivalent _ => true
  | _ => false

/-- The items are a class. -/
def isNamed : SetItem → Bool
  | .named _ => true
  | _ => false

/-- The exchange of a first set, or of all other bytes, for a second one. -/
def Request.table (r : Request) (first second : List SetItem) : Except PairFault ByteTable := do
  if second.any isEquivalent then throw .equivalents
  if second.any isRestricted then throw .restrictedClass
  let domain := bytesOf first
  let others := allBytes.filter fun c => !domain.contains c
  let slots := if r.complement then others.map fun c => ⟨c, none, true⟩ else first.flatMap slotsOf
  let targets := second.flatMap slotsOf
  let targets := if r.complement then targets.map fun s => { s with letters := none, first := true } else targets
  let (found, left) ← pairs (slots.length + 1) slots targets
  let rest ←
    if left.isEmpty || r.truncate then pure []
    else if targets.isEmpty then throw .emptySecond
    else
      match ← lastByte? second with
      | some c => pure (left.map fun s => Pair.bytes s.byte c)
      | none => pure []
  if r.complement && first.any isNamed then
    let values := targets.map (·.byte)
    if others.length < targets.length || (r.truncate && !left.isEmpty) || values.any (some · ≠ values.head?) then throw .manyValues
  return (found ++ rest).foldl ByteTable.add .same

/-- Equal bytes of the set in a row are one. -/
def squeezed (set : Raw) (cs : Raw) : Raw :=
  (cs.foldl (fun out c => if out.head? = some c && set.contains c then out else c :: out) []).reverse

/-- What is done with the input. -/
structure Plan where
  delete : Raw
  table : ByteTable
  squeeze : Raw

/-- What a plan makes of a text. -/
def Plan.apply (p : Plan) (cs : Raw) : Raw :=
  let kept := if p.delete.isEmpty then cs else cs.filter fun c => !p.delete.contains c
  let moved := kept.map p.table.look
  if p.squeeze.isEmpty then moved else squeezed p.squeeze moved

/-- The plan for one or two sets. -/
def Request.plan (r : Request) (first : List SetItem) (second : Option (List SetItem)) : Except PairFault Plan := do
  let chosen := if r.complement then allBytes.filter fun c => !(bytesOf first).contains c else bytesOf first
  let size := if r.complement then chosen.length else (bytesOf first).length
  if first.any isIndefinite then throw .indefiniteFirst
  match second with
  | none => return if r.delete then ⟨chosen, .same, []⟩ else ⟨[], .same, chosen⟩
  | some second =>
    let used := if (second.filter isIndefinite).length = 1 && (bytesOf second).length ≤ size then stretched size second else second
    let unused := used.filter isIndefinite
    if 1 < unused.length then throw .manyIndefinite
    if r.delete then
      if second.any isIndefinite then throw .indefiniteUnused
      return ⟨chosen, .same, bytesOf used⟩
    let table ← r.table first used
    return ⟨[], table, if r.squeeze then bytesOf used else []⟩

/-- Reads a set and passes its warnings on. -/
def readSet (text : Raw) : Routine (Option (List SetItem)) := do
  let (warnings, outcome) := SetItem.items text
  warnings.forM (complainAs name)
  match outcome with
  | .ok items => return some items
  | .error f =>
    complainAs name f.message
    return none

/-- Reads the input and writes what the plan makes of it. -/
def Plan.carryOut (p : Plan) : Routine Nat := do
  match ← readAll (← opened input) with
  | .error f =>
    complainAs name ("read error: " ++ f.words)
    return 1
  | .ok cs => do settle name none true (← print (p.apply cs))

/-- The program. -/
def run (args : List Raw) : Routine Nat := do
  let a := options.read args
  match a.fault with
  | some f =>
    complainOfUse name f.message
    return 1
  | none =>
    let r := Request.ofArguments a
    match r.sets? a.operands with
    | .error f =>
      complainOfUse name f.message
      return 1
    | .ok (first, second) =>
      let some firstItems ← readSet first | return 1
      let secondItems ←
        match second with
        | none => pure (some none)
        | some text => do pure ((← readSet text).map some)
      let some secondItems := secondItems | return 1
      match r.plan firstItems secondItems with
      | .error f =>
        complainAs name f.message
        return 1
      | .ok plan => plan.carryOut

end ScriptLoader.Program.Exchange
