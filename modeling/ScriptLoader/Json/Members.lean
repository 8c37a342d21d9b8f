import ScriptLoader.Json.Token

/-!
# The members of a JSON object

A document is checked in one pass over its tokens, with the brackets that are open, the innermost first, and what may come next. Of the
object that the document is, the members are collected: each with its text, or with nothing where the value is something else.
-/

namespace ScriptLoader.Json

/-- What may come next. -/
inductive Expecting where
  | firstKey
  | key
  | colon
  | firstValue
  | value
  | next
  deriving DecidableEq, Repr

/-- How deep brackets may be nested. -/
def maxDepth : Nat := 200

/-- The state of the check: the brackets that are open (`true` for a curly one), what may come next, the key of the outermost object
whose value is being read, and its members so far, the last one first. -/
structure Check where
  brackets : List Bool
  expecting : Expecting
  key : List Char
  members : List (List Char × Option (List Char))
  deriving DecidableEq, Repr

namespace Check

/-- Behind the opening bracket of the document. -/
def start : Check := ⟨[true], .firstKey, [], []⟩

/-- A value of the outermost object is recorded. -/
def record (k : Check) (v : Option (List Char)) : Check :=
  if k.brackets.length = 1 then { k with members := (k.key, v) :: k.members } else k

/-- A bracket opens, where a value may stand. -/
def opening (k : Check) (curly : Bool) : Option Check :=
  if maxDepth ≤ k.brackets.length then none
  else
    some { k.record none with brackets := curly :: k.brackets, expecting := if curly then .firstKey else .firstValue }

/-- A bracket closes. -/
def closing (k : Check) (curly : Bool) : Option Check :=
  match k.brackets with
  | b :: brackets => if b = curly then some { k with brackets, expecting := .next } else none
  | [] => none

/-- The state behind a token. -/
def step (k : Check) (t : Token) : Option Check :=
  match k.expecting, t with
  | .firstKey, .closeCurly => k.closing true
  | .firstKey, .text s | .key, .text s =>
    some { k with expecting := .colon, key := if k.brackets.length = 1 then s else k.key }
  | .colon, .colon => some { k with expecting := .value }
  | .firstValue, .closeSquare => k.closing false
  | .firstValue, .text s | .value, .text s => some { k.record (some s) with expecting := .next }
  | .firstValue, .scalar | .value, .scalar => some { k.record none with expecting := .next }
  | .firstValue, .openCurly | .value, .openCurly => k.opening true
  | .firstValue, .openSquare | .value, .openSquare => k.opening false
  | .next, .closeCurly => k.closing true
  | .next, .closeSquare => k.closing false
  | .next, .comma =>
    match k.brackets with
    | true :: _ => some { k with expecting := .key }
    | false :: _ => some { k with expecting := .value }
    | [] => none
  | _, _ => none

end Check

/-- The members of the object that the tokens are, the last one first. -/
def membersOf (ts : List Token) : Option (List (List Char × Option (List Char))) :=
  match ts with
  | .openCurly :: ts =>
    match ts.foldlM Check.step Check.start with
    | some k => if k.brackets.isEmpty then some k.members else none
    | none => none
  | _ => none

/-- The members of the object that a document is. -/
def members (cs : List Char) : Option (List (List Char × Option (List Char))) := (tokens cs).bind membersOf

end ScriptLoader.Json
