import ScriptLoader.Loader
import ScriptLoader.Proofs.Action
import ScriptLoader.Proofs.Results

/-!
# What a loader is asked

The requests to a loader (`Request`) and what it is asked by other requests on the way: the names that are compiled when a name is
opened (`Loader.target?`, `Loader.fallback?`), the request to open a name in terms of them (`openName_eq`), and what becomes of its
failures (`exec_openResource`).
-/

namespace ScriptLoader

open Action Text

/-- A request to a loader. -/
inductive Request where
  | openResource (name : String)
  | compile (name : String)
  | resolve (name : String) (base : Option String)
  deriving DecidableEq, Repr

/-- What a loader answers. -/
inductive Answer where
  | bytes (found : Option Bytes)
  | code (text : String)
  | source (s : Source)
  deriving DecidableEq, Repr

/-- Makes a request. -/
def Request.ask (l : Loader) : Request → Action Answer
  | openResource name => .bytes <$> l.openResource name
  | compile name => .code <$> l.compile name
  | resolve name base => .source <$> l.resolve name base

namespace Loader

/-- The name whose source is compiled when a name is opened that asks for code. -/
def target? (l : Loader) (name : String) : Option String :=
  if endsWith (lower name) l.config.sourceExtension then some name
  else if endsWith (lower name) l.config.aliasExtension then some (dropEnding name l.config.compiledExtension)
  else none

/-- The name whose source is compiled when nothing is found under a name. -/
def fallback? (l : Loader) (name : String) : Option String :=
  if endsWith (lower name) l.config.compiledExtension then
    some (dropEnding name l.config.compiledExtension ++ l.config.sourceExtension)
  else none

/-- A name is compiled, or given to the lookup, and compiled where the lookup has nothing. -/
theorem openName_eq (l : Loader) (name : String) :
    l.openName name =
      match l.target? name with
      | some n => some <$> l.load n
      | none => do
        match ← l.passThrough name with
        | some bs => return some bs
        | none =>
          match l.fallback? name with
          | some n => some <$> l.load n
          | none => return none := by
  unfold openName target? fallback?
  simp only
  split
  · rfl
  · split
    · rfl
    · congr 1
      funext found
      cases found with
      | some bs => rfl
      | none =>
        simp only
        split <;> rfl

theorem exec_passThrough (l : Loader) (name : String) (w : World) :
    exec (l.passThrough name) w = (l.lookup.open? w.host name, { w with events := .opened name :: w.events }) := by
  simp only [passThrough, exec_bind, exec_record, exec_host, exec_ofExcept, mapError_id]

/-- What is answered for the result of opening a name. -/
def answer : Except Failure (Option Bytes) → Except Failure (Option Bytes)
  | .error (.load _) => .ok none
  | .error (.system _ _) => .ok none
  | r => r

/-- The answer to a request changes nothing but the record of events. -/
theorem exec_openResource (l : Loader) (name : String) (w : World) :
    ∃ es, exec (l.openResource name) w = (answer (exec (l.openName name) w).1, { (exec (l.openName name) w).2 with events := es }) := by
  unfold openResource
  rw [exec_tryCatch]
  generalize exec (l.openName name) w = p
  rcases p with ⟨f | found, w'⟩
  · cases f with
    | load e =>
      simp only
      split <;> exact ⟨_, rfl⟩
    | system fault path => exact ⟨_, rfl⟩
    | _ => exact ⟨w'.events, rfl⟩
  · exact ⟨w'.events, rfl⟩

end Loader

end ScriptLoader
