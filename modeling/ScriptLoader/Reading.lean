import ScriptLoader.Text.Encoding
import ScriptLoader.Uri.Reference
import ScriptLoader.World

/-!
# Reading sources

A source is read from a file that a path names, whose URI is made from its real path, or from a URL, which is kept as it is given. A
`file` URL is read from the disk and every other one from the network. Line breaks of files are unified; those of pages are not.
-/

namespace ScriptLoader

open Text

/-- The text of bytes in the encoding with the name `label`. -/
def decodeText (label : String) (bs : Bytes) : Except Failure String :=
  match Encoding.named? label with
  | none => .error (.unknownEncoding label)
  | some e =>
    match e.decode? bs with
    | some s => .ok s
    | none => .error .undecodable

/-- The bytes of a text in the encoding with the name `label`. -/
def encodeText (label : String) (s : String) : Except Failure Bytes :=
  match Encoding.named? label with
  | none => .error (.unknownEncoding label)
  | some e =>
    match e.encode? s with
    | some bs => .ok bs
    | none => .error .unencodable

namespace Host

/-- The bytes of a file. -/
def fileBytes (h : Host) (p : Path) : Except Failure Bytes := (h.files.read h.cwd p).mapError (Failure.ofPath p)

/-- The text of a file, with unified line breaks. -/
def readText (h : Host) (label : String) (p : Path) : Except Failure String := do
  let s ← decodeText label (← h.fileBytes p)
  return String.ofList (unifyLineBreaks s.toList)

/-- The body of a page. -/
def fetch (h : Host) (url : String) : Except Failure Bytes :=
  match h.pages.lookup url with
  | some (.body bs) => .ok bs
  | some (.status n) => if n < 400 then .ok [] else .error (.invalid ("status " ++ toString n ++ " for url: " ++ url))
  | none => .error (.invalid ("no connection for url: " ++ url))

/-- The text of a page. An empty page is empty in every encoding, known or not. -/
def fetchText (h : Host) (label : String) (url : String) : Except Failure String := do
  let bs ← h.fetch url
  if bs.isEmpty then return "" else decodeText label bs

/-- The real path of a path. -/
def realPath (h : Host) (p : Path) : Except Failure Path := do
  let loc ← (h.files.realPath h.cwd p).mapError Failure.ofRealPath
  return ⟨.slash, loc⟩

/-- Reads the source in the file that `name` names. -/
def sourceOfFile (h : Host) (label : String) (name : String) : Except Failure Source := do
  let path ← h.realPath (Path.ofText name)
  return ⟨path.uri, ← h.readText label path⟩

/-- Reads the source at a URL. -/
def sourceOfUrl (h : Host) (label : String) (url : String) : Except Failure Source := do
  let r ← (Uri.Reference.parse "" url).mapError fun m => .invalid m.message
  if r.scheme = "file" then return ⟨url, ← h.readText label (Path.ofText (Uri.unescaped r.path))⟩
  return ⟨url, ← h.fetchText label url⟩

end Host

end ScriptLoader
