import ScriptLoader.Cache.Code
import ScriptLoader.Compiler

/-!
# The loader

Hands out compiled code for sources. A name with the extension of sources, or with both extensions, asks for the code of a source; any
other name is given to the lookup, and where that has nothing for a name with the extension of compiled code, its source is compiled.
-/

namespace ScriptLoader

open Text

/-- A loader. -/
structure Loader where
  config : Config
  lookup : Lookup
  compiler : Compiler
  cache : CodeCache

namespace Loader

/-- The origin of messages of the loader. -/
def origin : String := "tsloader.loader"

/-- How the loader resolves names. -/
def resolver (l : Loader) : Resolver := ⟨l.lookup, l.config.encoding⟩

/-- The source of a name, which the module `base` may use. -/
def resolve (l : Loader) (name : String) (base : Option String) : Action Source := l.resolver.resolve name base

/-- Does without a cache that fails: its error is logged, and `none` takes the place of the result. -/
def tolerate {α : Type} (complaint : String) (none : α) (action : Action α) : Action α :=
  tryCatch action fun f =>
    match f with
    | .load e =>
      if e.kind = .cacheStore then do
        Action.log .warning origin (complaint ++ ": " ++ e.message)
        return none
      else throw f
    | _ => throw f

/-- The code that the cache has for a source. -/
def cached (l : Loader) (s : Source) : Action (Option String) :=
  tolerate ("Ignoring unreadable cache entry for " ++ s.uri) none (l.cache.get? s)

/-- Keeps the code for a source. -/
def store (l : Loader) (s : Source) (code : String) : Action Unit :=
  tolerate ("Could not cache compiled code for " ++ s.uri) () (l.cache.put s code)

/-- The compiled code of the source of a name. -/
def compile (l : Loader) (name : String) : Action String := do
  let s ← l.resolve name none
  match ← l.cached s with
  | some code => return code
  | none =>
    Action.record (.compiling name)
    let code ← l.compiler.compile l.resolver name
    l.store s code
    return code

/-- The compiled code of the source of a name, as bytes. -/
def load (l : Loader) (name : String) : Action Bytes := do
  Action.ofExcept id (encodeText l.config.encoding (← l.compile name))

/-- The bytes of what the lookup has for a name. -/
def passThrough (l : Loader) (name : String) : Action (Option Bytes) := do
  Action.record (.opened name)
  Action.ofExcept id (l.lookup.open? (← Action.host) name)

/-- The bytes for a name. -/
def openName (l : Loader) (name : String) : Action (Option Bytes) := do
  let low := lower name
  let source := l.config.sourceExtension
  let compiled := l.config.compiledExtension
  if endsWith low source then return some (← l.load name)
  if endsWith low l.config.aliasExtension then return some (← l.load (dropEnding name compiled))
  match ← l.passThrough name with
  | some bs => return some bs
  | none => if endsWith low compiled then return some (← l.load (dropEnding name compiled ++ source)) else return none

/-- The message that a name could not be loaded. -/
def unloaded (name : String) (f : Failure) : String := "Could not load '" ++ name ++ "': " ++ f.message

/-- The bytes for a name. Errors of the loader and of the system are answered with nothing; that a compiler refuses a source is
logged. -/
def openResource (l : Loader) (name : String) : Action (Option Bytes) :=
  tryCatch (l.openName name) fun f =>
    match f with
    | .load e => do
      if e.kind = .compilation then
        Action.log .warning origin ("Could not compile '" ++ name ++ "':\n" ++ e.diagnostics)
      else Action.log .debug origin (unloaded name f)
      return none
    | .system _ _ => do
      Action.log .debug origin (unloaded name f)
      return none
    | _ => throw f

end Loader

end ScriptLoader
