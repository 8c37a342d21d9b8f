import ScriptLoader.Proofs.Loader.Resolution
import ScriptLoader.Proofs.Results

/-!
# What a command compiles

A compiler that runs a command writes the source for it, runs it once, and reads its output. What it gives is a function of the outcome of
that run (`Outcome.result`), and it changes nothing else than the files that the command has changed (`exec_commandOn`).
-/

namespace ScriptLoader

open Action Text

/-- The code that a finished command has written, or the error that it has reported. -/
def readOutput (encoding name : String) (status : Int) (output errors : Bytes) : Except Failure String := do
  let errors ←
    match Encoding.named? encoding with
    | some e => .ok (e.decodeLossy errors)
    | none => if errors.isEmpty then .ok "" else .error (.unknownEncoding encoding)
  if status ≠ 0 then .error (.load (.compilation name (.compilerFailed (toString status)) (some (trim errors))))
  else if output.isEmpty then return "" else decodeText encoding output

/-- What a compiler makes of the outcome of its command. -/
def Outcome.result (encoding name : String) : Outcome → Except Failure String
  | .unavailable details => .error (.load (.compilation name (.compilerUnavailable details) none))
  | .invalid m => .error (.invalid m)
  | .finished status output errors => readOutput encoding name status output errors

namespace Compiler

theorem exec_commandResult (encoding program name : String) (status : Int) (output errors : Bytes) (w : World) :
    ∃ es, exec (commandResult encoding program name status output errors) w =
      (readOutput encoding name status output errors, { w with events := es }) := by
  -- when the errors have been read
  have hrest (errors : String) : ∃ es, exec (do
        if status ≠ 0 then
          throw (.load (.compilation name (.compilerFailed (toString status)) (some (trim errors))))
        if !errors.isEmpty then
          Action.log .info commandOrigin (program ++ " reported for '" ++ name ++ "': " ++ trim errors)
        if output.isEmpty then return ""
        Action.ofExcept id (decodeText encoding output)) w =
      (if status ≠ 0 then .error (.load (.compilation name (.compilerFailed (toString status)) (some (trim errors))))
        else if output.isEmpty then .ok "" else decodeText encoding output, { w with events := es }) := by
    by_cases hstatus : status = 0
    · refine ⟨if errors.isEmpty then w.events else
        .logged .info commandOrigin (program ++ " reported for '" ++ name ++ "': " ++ trim errors) :: w.events, ?_⟩
      cases hempty : errors.isEmpty <;> cases hout : output.isEmpty <;> simp [hstatus, exec_bind, mapError_id, Except.map]
    · rw [if_pos hstatus, if_pos hstatus]
      exact ⟨_, rfl⟩
  unfold commandResult readOutput
  cases Encoding.named? encoding with
  | some e => exact hrest (e.decodeLossy errors)
  | none =>
    simp only
    split
    · exact hrest ""
    · exact ⟨_, rfl⟩

/-- What a command makes of a source. -/
def commandOn (words : List String) (timeout : Option Int) (encoding name : String) (s : Source) : Action String :=
  match words with
  | [] => throw .noCommand
  | program :: _ => do
    Action.log .debug commandOrigin ("Running " ++ program ++ " for '" ++ name ++ "'")
    let input ← Action.ofExcept id (encodeText encoding s.content)
    let host ← Action.host
    let (outcome, files) := host.run host.files host.cwd words input timeout
    Action.setFiles files
    match outcome with
    | .unavailable details => throw (.load (.compilation name (.compilerUnavailable details) none))
    | .invalid m => throw (.invalid m)
    | .finished status output errors => commandResult encoding program name status output errors

theorem runCommand_eq (r : Resolver) (words : List String) (timeout : Option Int) (encoding name : String) :
    runCommand r words timeout encoding name =
      (do
        let s ← r.resolve name none
        commandOn words timeout encoding name s) := rfl

variable {words : List String} {encoding : String} {s : Source}

/-- A source that cannot be written is no input for a command. -/
theorem exec_commandOn_of_unencodable {f : Failure} (timeout : Option Int) (name : String) (w : World) (hwords : words ≠ [])
    (h : encodeText encoding s.content = .error f) :
    ∃ es, exec (commandOn words timeout encoding name s) w = (.error f, { w with events := es }) := by
  cases words with
  | nil => exact absurd rfl hwords
  | cons program rest =>
    simp only [commandOn, exec_bind, exec_log, exec_ofExcept, h, mapError_id]
    exact ⟨_, rfl⟩

/-- A command is run once, on the source as it is written. -/
theorem exec_commandOn {input : Bytes} (timeout : Option Int) (name : String) (w : World) (hwords : words ≠ [])
    (h : encodeText encoding s.content = .ok input) :
    ∃ es, exec (commandOn words timeout encoding name s) w =
      ((w.host.run w.host.files w.host.cwd words input timeout).1.result encoding name,
        { w with host := { w.host with files := (w.host.run w.host.files w.host.cwd words input timeout).2 }, events := es }) := by
  cases words with
  | nil => exact absurd rfl hwords
  | cons program rest =>
    simp only [commandOn, exec_bind, exec_log, exec_ofExcept, h, mapError_id, exec_host, exec_setFiles]
    cases (w.host.run w.host.files w.host.cwd (program :: rest) input timeout).1 with
    | unavailable details => exact ⟨_, rfl⟩
    | invalid m => exact ⟨_, rfl⟩
    | finished status output errors =>
      obtain ⟨es, hresult⟩ := exec_commandResult encoding program name status output errors { w with
        host := { w.host with files := (w.host.run w.host.files w.host.cwd (program :: rest) input timeout).2 }
        events := .logged .debug commandOrigin ("Running " ++ program ++ " for '" ++ name ++ "'") :: w.events }
      exact ⟨es, hresult⟩

end Compiler

end ScriptLoader
