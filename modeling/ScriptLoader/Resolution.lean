import ScriptLoader.Lookup
import ScriptLoader.Syntax.Eraser

/-!
# Resolution

From a name to its source. A relative name is first read against the source of the module that uses it; then the name is looked up
among the sources that are known, taken for an address, given to the lookup, and at last taken for a file. A name that was found
keeps its source; one that was not found is not remembered.
-/

namespace ScriptLoader

/-- What resolution works with: the lookup for names and the encoding of sources. -/
structure Resolver where
  lookup : Lookup
  encoding : String

namespace Resolver

/-- The origin of messages about resolution. -/
def origin : String := "tsloader.resolver"

/-- The failure of a name whose source could not be read. What does not concern the source escapes. -/
def unresolved (name : String) : Failure → Failure
  | .system .notFound _ => .load (.resolution name .sourceNotFound)
  | .unknownEncoding label => .unknownEncoding label
  | .linkLoop path => .linkLoop path
  | .noCommand => .noCommand
  | f => .load (.resolution name (.sourceReadFailed f.message))

/-- The URL of a name: the name itself if it is an address, or what the lookup has. -/
def locate (r : Resolver) (name : String) : Action (Option String) := do
  if Address.looksLike name then
    match Address.check name with
    | .ok () => return some name
    | .error f => Action.log .debug origin ("'" ++ name ++ "' is not a URL (" ++ f.message ++ "), trying paths")
  Action.record (.lookedUp name)
  Action.ofExcept id (r.lookup.get? (← Action.host) name)

/-- Reads the source of a name. -/
def find (r : Resolver) (name : String) : Action Source := do
  match ← r.locate name with
  | some url => Action.ofExcept (unresolved name) ((← Action.host).sourceOfUrl r.encoding url)
  | none => Action.ofExcept (unresolved name) ((← Action.host).sourceOfFile r.encoding name)

/-- The source of a name that is not relative to another one. -/
def resolveName (r : Resolver) (name : String) : Action Source := do
  match (← get).identities.get? name with
  | some s => return s
  | none =>
    let s ← r.find name
    Action.log .debug origin ("Resolved '" ++ name ++ "' to " ++ s.uri)
    let w ← get
    let (kept, identities) := w.identities.put name s
    set { w with identities }
    return kept

/-- The source of a name that the module `base` uses. -/
def resolve (r : Resolver) (name : String) (base : Option String) : Action Source := do
  match base with
  | some base =>
    if Syntax.isRelative name then
      let s ← r.resolveName base
      r.resolveName (← Action.ofExcept (fun (m : Uri.Malformed) => .invalid m.message) (Uri.join s.uri name))
    else r.resolveName name
  | none => r.resolveName name

end Resolver

end ScriptLoader
