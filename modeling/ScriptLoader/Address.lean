import ScriptLoader.Path
import ScriptLoader.Uri.Reference

/-!
# Addresses

Names that are URLs of a kind that can be read. A name is taken for one only if it looks like one, so that paths, also those that
begin with a drive letter, stay paths.
-/

namespace ScriptLoader.Address

open Text

/-- Why a name is not an address. -/
inductive Fault where
  | malformed (m : Uri.Malformed)
  | driveLetter (scheme : String)
  | unknownScheme (scheme : String)
  | missingHost (name : String)
  deriving DecidableEq, Repr

/-- The report of a fault. -/
def Fault.message : Fault → String
  | malformed m => m.message
  | driveLetter scheme => "'" ++ scheme ++ ":' looks like a drive letter"
  | unknownScheme scheme => "unknown protocol: " ++ scheme
  | missingHost name => "missing host in '" ++ name ++ "'"

/-- The schemes that can be read. -/
def schemes : List String := ["file", "http", "https"]

/-- The name begins with letters in lower case, a colon and a slash. -/
def looksLike (name : String) : Bool :=
  let (scheme, tail) := cut (fun c => !c.isLower) name.toList
  !scheme.isEmpty && [':', '/'].isPrefixOf tail

/-- The name is an address. -/
def check (name : String) : Except Fault Unit :=
  match Uri.Reference.parse "" name with
  | .error m => .error (.malformed m)
  | .ok r =>
    if r.scheme.length < 2 then .error (.driveLetter r.scheme)
    else if !schemes.contains r.scheme then .error (.unknownScheme r.scheme)
    else if r.scheme ≠ "file" && r.authority.isEmpty then .error (.missingHost name)
    else .ok ()

/-- The file that a URL names, as seen from the root. -/
def file (cwd : Path) (url : String) : Except Uri.Malformed Path :=
  (Uri.Reference.parse "" url).map fun r =>
    Path.absolute cwd (Path.ofText (Uri.unescaped (String.ofList r.plainPath)))

end ScriptLoader.Address
