import ScriptLoader.Config
import ScriptLoader.Resolution

/-!
# Compilers

What turns the source of a name into compiled code: the eraser, which may first check that every relative import leads to a module, or
a command that reads the source and writes the code.
-/

namespace ScriptLoader

open Text

/-- A compiler. The command runs for so many milliseconds if there is a limit. -/
inductive Compiler where
  | eraser (config : Config) (checkImports : Bool)
  | command (words : List String) (timeout : Option Int) (encoding : String)
  deriving DecidableEq, Repr

namespace Compiler

/-- The origin of messages about erasure. -/
def eraserOrigin : String := "tsloader.compiler.stripper"

/-- The origin of messages about commands. -/
def commandOrigin : String := "tsloader.compiler.command"

/-- One of the names leads to a source, for the module `name`. -/
def anyResolves (r : Resolver) (name : String) : List String → Action Bool
  | [] => return false
  | c :: cs => do
    let found ← tryCatch (do let _ ← r.resolve c (some name); return true) fun f =>
      match f with
      | .load e => if e.kind = .resolution then return false else throw f
      | _ => throw f
    if found then return true else anyResolves r name cs

/-- Every relative specifier leads to a module. -/
def checkSpecifiers (r : Resolver) (c : Config) (name : String) : List Syntax.Specifier → Action Unit
  | [] => return ()
  | s :: ss => do
    if Syntax.isRelative s.text then
      if !(← anyResolves r name (c.candidates s.text)) then
        throw (.load (.compilationAt name (.moduleNotFound s.text) (some ⟨s.line, 1⟩)))
    checkSpecifiers r c name ss

/-- Erases the types of the source of `name`. -/
def erase (r : Resolver) (c : Config) (checkImports : Bool) (name : String) : Action String := do
  let s ← r.resolve name none
  match Syntax.erase s.content with
  | .error refusal => throw (.load (.ofRefusal name refusal))
  | .ok erased =>
    if checkImports then checkSpecifiers r c name erased.specifiers
    Action.log .debug eraserOrigin ("Erased types from '" ++ name ++ "' (" ++ toString s.content.length ++ " -> " ++
      toString erased.code.length ++ " chars)")
    return erased.code

/-- The code that a finished command has written, or the error that it has reported. -/
def commandResult (encoding program name : String) (status : Int) (output errors : Bytes) : Action String := do
  let errors ←
    match Encoding.named? encoding with
    | some e => pure (e.decodeLossy errors)
    | none => if errors.isEmpty then pure "" else throw (.unknownEncoding encoding)
  if status ≠ 0 then
    throw (.load (.compilation name (.compilerFailed (toString status)) (some (trim errors))))
  if !errors.isEmpty then
    Action.log .info commandOrigin (program ++ " reported for '" ++ name ++ "': " ++ trim errors)
  if output.isEmpty then return ""
  Action.ofExcept id (decodeText encoding output)

/-- Runs a command on the source of `name`. -/
def runCommand (r : Resolver) (words : List String) (timeout : Option Int) (encoding name : String) : Action String := do
  let s ← r.resolve name none
  match words with
  | [] => throw .noCommand
  | program :: _ =>
    Action.log .debug commandOrigin ("Running " ++ program ++ " for '" ++ name ++ "'")
    let input ← Action.ofExcept id (encodeText encoding s.content)
    let host ← Action.host
    let (outcome, files) := host.run host.files host.cwd words input timeout
    Action.setFiles files
    match outcome with
    | .unavailable details => throw (.load (.compilation name (.compilerUnavailable details) none))
    | .invalid m => throw (.invalid m)
    | .finished status output errors => commandResult encoding program name status output errors

/-- The compiled code of the source of `name`. -/
def compile (c : Compiler) (r : Resolver) (name : String) : Action String :=
  match c with
  | eraser config checkImports => erase r config checkImports name
  | command words timeout encoding => runCommand r words timeout encoding name

end Compiler

end ScriptLoader
