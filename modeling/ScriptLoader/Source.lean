import ScriptLoader.Digest.Sha256

/-!
# Sources

A source is a text and the URI it was read from. The URI is its identity, and the digest of the text, its fingerprint, tells whether
the text has changed.
-/

namespace ScriptLoader

/-- A text with the URI it was read from. -/
structure Source where
  uri : String
  content : String
  deriving DecidableEq, Repr

namespace Source

/-- Two sources with the same URI are the same source. -/
def same (s t : Source) : Bool := s.uri == t.uri

/-- The digest of the text. -/
def fingerprint (s : Source) : String := Digest.ofText s.content

end Source

/-- The sources that names stand for, in the order in which the names were first given. -/
structure Identities where
  entries : List (String × Source)
  deriving DecidableEq, Repr

namespace Identities

/-- No names. -/
def empty : Identities := ⟨[]⟩

/-- The source that a name stands for. -/
def get? (m : Identities) (name : String) : Option Source := m.entries.lookup name

/-- The name stands for a source. -/
def contains (m : Identities) (name : String) : Bool := (m.get? name).isSome

/-- How many names there are. -/
def size (m : Identities) : Nat := m.entries.length

/-- Gives the name to the source, unless it stands for one already; the result is the one that it stands for. -/
def put (m : Identities) (name : String) (s : Source) : Source × Identities :=
  match m.get? name with
  | some t => (t, m)
  | none => (s, ⟨m.entries ++ [(name, s)]⟩)

end Identities

end ScriptLoader
