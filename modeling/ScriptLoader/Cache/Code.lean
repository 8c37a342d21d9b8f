import ScriptLoader.Cache.Disk

/-!
# Code caches

Where compiled code is kept: nowhere, in memory, in a directory, or in a store that always fails. All answer the same three requests:
the code for a source, code to keep for a source, and to forget everything.
-/

namespace ScriptLoader

open Cache

/-- A code cache. -/
inductive CodeCache where
  | nowhere
  | memory
  | disk (directory : Path)
  | failing
  deriving DecidableEq, Repr

namespace CodeCache

/-- The origin of messages of the disk cache. -/
def diskOrigin : String := "tsloader.cache.disk"

/-- What a store that always fails reports. -/
def failure (cause : String → String → Cause) (s : Source) : Failure :=
  .load (.cacheStore (cause s.uri "the store is out of order"))

/-- The code in memory for a source, if it was made from this content. -/
def remembered (memory : List (String × String × String)) (s : Source) : Option String :=
  match memory.lookup s.uri with
  | some (fingerprint, code) => if fingerprint = s.fingerprint then some code else none
  | none => none

/-- The memory with the code for a source. -/
def remember (memory : List (String × String × String)) (s : Source) (code : String) : List (String × String × String) :=
  (s.uri, s.fingerprint, code) :: memory.filter fun e => !(e.1 == s.uri)

/-- The code for a source, if it is kept. -/
def get? (c : CodeCache) (s : Source) : Action (Option String) := do
  let w ← get
  match c with
  | nowhere => return none
  | memory => return remembered w.memory s
  | disk directory =>
    let found ← Action.ofExcept id (diskGet w.host directory s)
    if found = .stale then Action.log .debug diskOrigin ("Cache entry for " ++ s.uri ++ " is stale")
    return found.code?
  | failing => throw (failure .cacheReadFailed s)

/-- Keeps the code for a source. -/
def put (c : CodeCache) (s : Source) (code : String) : Action Unit := do
  let w ← get
  match c with
  | nowhere => return ()
  | memory => set { w with memory := remember w.memory s code }
  | disk directory =>
    let (fs, r) := diskPut w.host directory s code
    Action.setFiles fs
    Action.ofExcept id r
  | failing => throw (failure .cacheWriteFailed s)

/-- Forgets everything. -/
def clear (c : CodeCache) : Action Unit := do
  let w ← get
  match c with
  | nowhere => return ()
  | memory => set { w with memory := [] }
  | disk directory =>
    let (fs, r) := diskClear w.host directory
    Action.setFiles fs
    Action.ofExcept id r
  | failing => return ()

end CodeCache

end ScriptLoader
