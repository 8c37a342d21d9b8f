import ScriptLoader.Path
import ScriptLoader.Text.Blank
import ScriptLoader.Text.Lower

/-!
# Configuration

The extension of the sources, the extension of the compiled code and the encoding of both. Extensions are put into a normal form when
a configuration is made, so that every configuration has two different extensions in lower case, each with a point in front.
-/

namespace ScriptLoader

open Text

/-- What is wrong with a field. -/
inductive FieldFault where
  | notText
  | badExtension (ext : String)
  | sameExtensions
  deriving DecidableEq, Repr

/-- The report of a fault. -/
def FieldFault.message : FieldFault → String
  | notText => "Input should be a valid string"
  | badExtension ext => "Value error, '" ++ ext ++ "' is not a valid file extension"
  | sameExtensions => "Value error, source and compiled extensions must differ"

/-- A fault with the field that it concerns; both extensions together are no field. -/
structure ConfigFault where
  field : String
  fault : FieldFault
  deriving DecidableEq, Repr

/-- The extensions and the encoding that a loader works with. -/
structure Config where
  sourceExtension : String
  compiledExtension : String
  encoding : String
  deriving DecidableEq, Repr

namespace Config

/-- The configuration where nothing is chosen. -/
def standard : Config := ⟨".ts", ".js", "utf-8"⟩

/-- The ending of a name that asks for the compiled code of a source. -/
def aliasExtension (c : Config) : String := c.sourceExtension ++ c.compiledExtension

/-- An extension in lower case, without blanks around it and with a point in front. -/
def normalForm (ext : String) : String :=
  let ext := lower (trim ext)
  if startsWith ext "." then ext else "." ++ ext

/-- The normal form of an extension, which is more than a point and has no slash. -/
def extension (ext : String) : Except FieldFault String :=
  let ext := normalForm ext
  if ext.length < 2 || ext.toList.contains '/' then .error (.badExtension ext) else .ok ext

/-- What a field is given as: nothing, a text, or something else. -/
inductive Given where
  | nothing
  | text (s : String)
  | other
  deriving DecidableEq, Repr

/-- The value of a field, with its standard value and its check. -/
def field (standard : String) (check : String → Except FieldFault String) : Given → Except FieldFault String
  | .nothing => .ok standard
  | .text s => check s
  | .other => .error .notText

/-- The faults of a field. -/
def faults (name : String) : Except FieldFault String → List ConfigFault
  | .ok _ => []
  | .error f => [⟨name, f⟩]

/-- Makes a configuration, or tells all faults in the order of the fields. -/
def make (source compiled encoding : Given) : Except (List ConfigFault) Config :=
  match field standard.sourceExtension extension source, field standard.compiledExtension extension compiled,
    field standard.encoding .ok encoding with
  | .ok s, .ok c, .ok e => if s = c then .error [⟨"", .sameExtensions⟩] else .ok ⟨s, c, e⟩
  | s, c, e => .error (faults "source_extension" s ++ faults "compiled_extension" c ++ faults "encoding" e)

/-- The names under which the module that an import specifies is looked for. -/
def candidates (c : Config) (specifier : String) : List String :=
  let low := lower specifier
  if endsWith low c.compiledExtension then
    [specifier, dropEnding specifier c.compiledExtension ++ c.sourceExtension]
  else if Path.hasEnding low then [specifier]
  else
    [specifier ++ c.sourceExtension, specifier ++ c.compiledExtension, specifier ++ "/index" ++ c.sourceExtension]

end Config

/-- The name with the extension `new` for `old`, whose case does not count; where `old` is not there, `new` is added. An empty `old`
stands for the whole name. -/
def replaceExtension (name old new : String) : String :=
  if old.isEmpty then new
  else if endsWith (lower name) old then dropEnding name old ++ new else name ++ new

end ScriptLoader
