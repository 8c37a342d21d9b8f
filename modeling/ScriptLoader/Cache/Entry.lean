import ScriptLoader.Json.Members
import ScriptLoader.Source

/-!
# Cache entries

What the disk cache keeps for a source: its URI, the fingerprint of its content and the compiled code, as one JSON object.
-/

namespace ScriptLoader.Cache

/-- Compiled code with the source that it was made from. -/
structure Entry where
  uri : String
  fingerprint : String
  code : String
  deriving DecidableEq, Repr

namespace Entry

/-- The entry for a source. -/
def ofSource (s : Source) (code : String) : Entry := ⟨s.uri, s.fingerprint, code⟩

/-- The entry was made from this source, with this content. -/
def fits (e : Entry) (s : Source) : Bool := e.uri == s.uri && e.fingerprint == s.fingerprint

/-- A member of an object. -/
def member (key value : String) : List Char := Json.encodeText key.toList ++ ':' :: Json.encodeText value.toList

/-- An entry as it is written. -/
def text (e : Entry) : List Char :=
  '{' :: (member "uri" e.uri ++ ',' :: (member "fingerprint" e.fingerprint ++ ',' :: (member "code" e.code ++ ['}'])))

/-- The bytes of an entry. -/
def bytes (e : Entry) : Bytes := Text.Utf8.encode e.text

/-- The text of the last member with this key, if it is a text. -/
def textOf? (members : List (List Char × Option (List Char))) (key : String) : Option String :=
  ((members.lookup key.toList).bind id).map String.ofList

/-- Reads an entry. -/
def ofBytes? (bs : Bytes) : Option Entry := do
  let members ← Json.members (← Text.Utf8.decode bs)
  return ⟨← textOf? members "uri", ← textOf? members "fingerprint", ← textOf? members "code"⟩

/-- The name of the file for the entry of a source. -/
def fileName (s : Source) : String := Digest.ofText s.uri ++ ".json"

end Entry

end ScriptLoader.Cache
