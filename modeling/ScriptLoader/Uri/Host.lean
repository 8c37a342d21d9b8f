import ScriptLoader.Text.Fields
import ScriptLoader.Text.Quoted
import ScriptLoader.Uri.Percent

/-!
# Hosts in brackets

What stands between square brackets in the authority of a URI is an address of the sixth version of the protocol or a future form.
-/

namespace ScriptLoader.Uri

open Text

/-- What is wrong with the authority of a URI. -/
inductive Malformed where
  | unmatchedBracket
  | noAddress (host : String)
  | shortAddress
  | futureAddress
  | composedCharacter (authority : String)
  deriving DecidableEq, Repr

/-- The report of a malformed authority. -/
def Malformed.message : Malformed → String
  | unmatchedBracket => "Invalid IPv6 URL"
  | noAddress host => quoted host ++ " does not appear to be an IPv4 or IPv6 address"
  | shortAddress => "An IPv4 address cannot be in brackets"
  | futureAddress => "IPvFuture address is invalid"
  | composedCharacter a => "netloc '" ++ a ++ "' contains invalid characters under NFKC normalization"

/-- A decimal number from 0 to 255 without zeros in front. -/
def isOctet (cs : List Char) : Bool :=
  !cs.isEmpty && cs.length ≤ 3 && cs.all Char.isDigit && (cs.length = 1 || cs.head? ≠ some '0') &&
    cs.foldl (fun n c => 10 * n + (c.toNat - 48)) 0 ≤ 255

/-- Four octets with points between them. -/
def isShortAddress (cs : List Char) : Bool :=
  let octets := pieces '.' cs
  octets.length = 4 && octets.all isOctet

/-- One to four hexadecimal digits. -/
def isGroup (cs : List Char) : Bool := !cs.isEmpty && cs.length ≤ 4 && cs.all fun c => (digitValue? c).isSome

/-- The groups of an address: eight, or fewer where one place, marked by an empty group between two colons, stands for the rest. -/
def areGroups (groups : List (List Char)) : Bool :=
  let inner := (groups.drop 1).dropLast
  if groups.length < 3 || 9 < groups.length then false
  else
    match (inner.filter List.isEmpty).length with
    | 0 => groups.length = 8 && groups.all isGroup
    | 1 =>
      let place := 1 + inner.findIdx List.isEmpty
      let front := groups.take place
      let back := groups.drop (place + 1)
      let front := if front = [[]] then [] else front
      let back := if back = [[]] then [] else back
      front.all isGroup && back.all isGroup && front.length + back.length < 8
    | _ => false

/-- An address whose last two groups may be written as a short address. -/
def isLongAddress (cs : List Char) : Bool :=
  let (address, scope) := cut (· = '%') cs
  let groups := pieces ':' address
  let last := groups.getLast?.getD []
  (scope.isEmpty || (1 < scope.length && !(scope.drop 1).contains '%')) && 3 ≤ groups.length &&
    if last.contains '.' then isShortAddress last && areGroups (groups.dropLast ++ [['0'], ['0']]) else areGroups groups

/-- A future form: `v`, hexadecimal digits, a point, and more. -/
def isFutureAddress (cs : List Char) : Bool :=
  let (version, tail) := cut (fun c => (digitValue? c).isNone) (cs.drop 1)
  !version.isEmpty && tail.head? = some '.' && 2 ≤ tail.length && !tail.contains '\n'

/-- What is wrong with a host in brackets. -/
def bracketedFault? (host : List Char) : Option Malformed :=
  if host.head? = some 'v' then if isFutureAddress host then none else some .futureAddress
  else if host.contains '/' then some (.noAddress (String.ofList host))
  else if isShortAddress host then some .shortAddress
  else if isLongAddress host then none
  else some (.noAddress (String.ofList host))

/-- Characters that are taken apart into marks that separate the parts of a URI. -/
def composedSeparators : List Nat :=
  [0x2047, 0x2048, 0x2049, 0x2100, 0x2101, 0x2105, 0x2106, 0x2a74, 0xfe13, 0xfe16, 0xfe55, 0xfe56, 0xfe5f, 0xfe6b, 0xff03, 0xff0f,
   0xff1a, 0xff1f, 0xff20]

/-- The part of an authority behind what names a user. -/
def hostAndService (authority : List Char) : List Char := (authority.reverse.takeWhile (· ≠ '@')).reverse

/-- What is wrong with the brackets of an authority that has both: a host in brackets has nothing before it and at most the number of a
service behind it. -/
def bracketFault? (authority : List Char) : Option Malformed :=
  let (front, opened) := cut (· = '[') (hostAndService authority)
  let (host, closed) := cut (· = ']') (opened.drop 1)
  let behind := closed.drop 1
  if opened.isEmpty then bracketedFault? (cut (· = ':') front).1
  else if !front.isEmpty || (!behind.isEmpty && behind.head? ≠ some ':') then some .unmatchedBracket
  else bracketedFault? host

/-- What is wrong with an authority. -/
def authorityFault? (authority : List Char) : Option Malformed :=
  let opened := authority.contains '['
  let closed := authority.contains ']'
  if opened != closed then some .unmatchedBracket
  else
    (if opened then bracketFault? authority else none).or
      (if authority.any (fun c => composedSeparators.contains c.toNat) then some (.composedCharacter (String.ofList authority))
       else none)

end ScriptLoader.Uri
