import ScriptLoader.Text.Lower
import ScriptLoader.Uri.Host

/-!
# URI references

A reference is cut into scheme, authority, path, query and fragment (`Reference.parse`), written from them (`Reference.text`), and
resolved against a base (`join`). Names of other kinds, such as paths, are references too: what is missing is empty.
-/

namespace ScriptLoader.Uri

open Text

/-- The parts of a reference. -/
structure Reference where
  scheme : String
  authority : String
  path : String
  query : String
  fragment : String
  deriving DecidableEq, Repr

/-- A character of a scheme. -/
def isSchemeChar (c : Char) : Bool := c.isAlphanum || c = '+' || c = '-' || c = '.'

/-- The scheme that `cs` begins with, and what follows its colon. -/
def schemeOf? (cs : List Char) : Option (List Char × List Char) :=
  match cut (· = ':') cs with
  | (c :: scheme, _ :: tail) => if c.isAlpha && scheme.all isSchemeChar then some (c :: scheme, tail) else none
  | _ => none

/-- The authority that `cs` begins with, and what follows it. -/
def authorityOf (cs : List Char) : List Char × List Char :=
  match cs with
  | '/' :: '/' :: tail => cut (fun c => c = '/' || c = '?' || c = '#') tail
  | _ => ([], cs)

/-- The part before the first `mark`, and the part behind it. -/
def divide (mark : Char) (cs : List Char) : List Char × List Char :=
  ((cut (· = mark) cs).1, (cut (· = mark) cs).2.drop 1)

/-- A name without what is ignored in a reference: blanks and control characters in front, and tabs and line breaks anywhere. -/
def cleaned (s : String) : List Char :=
  (s.toList.dropWhile fun c => c.toNat ≤ 0x20).filter fun c => c ≠ '\t' && c ≠ '\r' && c ≠ '\n'

namespace Reference

/-- Cuts a name into its parts; `scheme` is the scheme of a name without one. -/
def parse (scheme : String) (s : String) : Except Malformed Reference :=
  let cs := cleaned s
  let (scheme, tail) :=
    match schemeOf? cs with
    | some (name, tail) => (lower (String.ofList name), tail)
    | none => (scheme, cs)
  let (authority, tail) := authorityOf tail
  match authorityFault? authority with
  | some fault => .error fault
  | none =>
    let (tail, fragment) := divide '#' tail
    let (path, query) := divide '?' tail
    .ok ⟨scheme, String.ofList authority, String.ofList path, String.ofList query, String.ofList fragment⟩

end Reference

/-- Schemes against whose URIs a reference can be resolved. -/
def relativeSchemes : List String :=
  ["", "ftp", "http", "gopher", "nntp", "imap", "wais", "file", "https", "shttp", "mms", "prospero", "rtsp", "rtspu", "sftp",
   "svn", "svn+ssh", "ws", "wss"]

/-- Schemes whose URIs have an authority. -/
def authoritySchemes : List String :=
  ["", "ftp", "http", "gopher", "nntp", "telnet", "imap", "wais", "file", "mms", "https", "shttp", "snews", "prospero", "rtsp",
   "rtspu", "rsync", "svn", "svn+ssh", "sftp", "nfs", "git", "git+ssh", "ws", "wss"]

/-- Schemes whose last segment may have parameters. -/
def parameterSchemes : List String :=
  ["", "ftp", "hdl", "prospero", "http", "imap", "https", "shttp", "rtsp", "rtspu", "sip", "sips", "mms", "sftp", "tel"]

/-- The path before the parameters of the last segment, and the parameters, where the scheme has them. -/
def splitParameters (scheme : String) (path : List Char) : List Char × List Char :=
  if parameterSchemes.contains scheme then
    let lastSegment := (path.reverse.takeWhile (· ≠ '/')).reverse
    let front := path.take (path.length - lastSegment.length)
    let (segment, parameters) := divide ';' lastSegment
    (front ++ segment, parameters)
  else (path, [])

/-- A path with parameters behind its last segment, unless there are none. -/
def withParameters (path parameters : List Char) : String :=
  String.ofList (if parameters.isEmpty then path else path ++ ';' :: parameters)

namespace Reference

/-- The path without parameters. -/
def plainPath (r : Reference) : List Char := (splitParameters r.scheme r.path.toList).1

/-- The parameters of the last segment. -/
def parameters (r : Reference) : List Char := (splitParameters r.scheme r.path.toList).2

/-- The authority and the path: two slashes stand before an authority, also before an empty one where the scheme has authorities and
the path could not be taken for one. -/
def hierarchy (r : Reference) : List Char :=
  let path := r.path.toList
  if !r.authority.isEmpty || (!r.scheme.isEmpty && authoritySchemes.contains r.scheme && path.take 2 ≠ ['/', '/']) then
    let path := if path.isEmpty || path.head? = some '/' then path else '/' :: path
    '/' :: '/' :: (r.authority.toList ++ path)
  else path

/-- A part with the mark before it, unless the part is empty. -/
def marked (mark : Char) (s : String) : List Char := if s.isEmpty then [] else mark :: s.toList

/-- The text of a reference. -/
def text (r : Reference) : String :=
  String.ofList ((if r.scheme.isEmpty then [] else r.scheme.toList ++ [':']) ++ r.hierarchy ++ marked '?' r.query ++
    marked '#' r.fragment)

end Reference

/-- Takes the segments `.` and `..` out, the latter with the segment before it; `kept` holds the segments before, nearest first. -/
def resolveDots (kept : List (List Char)) : List (List Char) → List (List Char)
  | [] => kept.reverse
  | s :: rest =>
    if s = ['.', '.'] then resolveDots kept.tail rest
    else if s = ['.'] then resolveDots kept rest
    else resolveDots (s :: kept) rest

/-- The segments of a path that is read against a base path: the base gives all its segments but the last, unless that is empty, and
empty segments inside are left out. -/
def mergedSegments (base path : List Char) : List (List Char) :=
  if path.head? = some '/' then pieces '/' path
  else
    let front := pieces '/' base
    let front := if front.getLast? = some [] then front else front.dropLast
    let segments := front ++ pieces '/' path
    segments.take 1 ++ ((segments.drop 1).dropLast).filter (fun s => !s.isEmpty) ++ (segments.drop 1).getLast?.toList

/-- The path that a relative path leads to from a base path. -/
def mergedPath (base path : List Char) : List Char :=
  let segments := mergedSegments base path
  let ending := if segments.getLast? = some ['.'] || segments.getLast? = some ['.', '.'] then [[]] else []
  let merged := glue '/' (resolveDots [] segments ++ ending)
  if merged.isEmpty then ['/'] else merged

/-- The reference that `r` is in a document at `b`, which has the same scheme. -/
def Reference.against (b r : Reference) : Reference :=
  if authoritySchemes.contains r.scheme && !r.authority.isEmpty then
    { r with path := withParameters r.plainPath r.parameters }
  else
    let authority := if authoritySchemes.contains r.scheme then b.authority else r.authority
    if r.plainPath.isEmpty && r.parameters.isEmpty then
      { r with authority, path := withParameters b.plainPath b.parameters
               query := if r.query.isEmpty then b.query else r.query }
    else { r with authority, path := withParameters (mergedPath b.plainPath r.plainPath) r.parameters }

/-- The name that the reference `name` stands for in a document at `base`. -/
def join (base name : String) : Except Malformed String :=
  if base.isEmpty then .ok name
  else if name.isEmpty then .ok base
  else do
    let b ← Reference.parse "" base
    let r ← Reference.parse b.scheme name
    if r.scheme = b.scheme && relativeSchemes.contains r.scheme then return (b.against r).text
    return name

end ScriptLoader.Uri
