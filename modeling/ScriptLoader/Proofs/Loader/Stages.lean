import ScriptLoader.Proofs.Loader.Caching
import ScriptLoader.Proofs.Loader.Requests

/-!
# Requests in stages

A request to a loader is answered in stages, between which other loaders may be at work and files may change: the name is resolved, the
cache is asked, the source is compiled, and the code is kept. Taken one after the other without a break, the stages are the request
(`run_asked`).
-/

namespace ScriptLoader

open Action

/-- How far a request has come. `n` is the name whose source is compiled for it. -/
inductive Stage where
  | asked
  | resolving (n : String)
  | looking (n : String) (s : Source)
  | compiling (n : String) (s : Source)
  | storing (n : String) (s : Source) (code : String)
  | compiled (n : String) (result : Except Failure String)
  | answered (answer : Except Failure Answer)

namespace Stage

variable (l : Loader) (request : Request)

/-- Carries an action out; the stage behind it depends on its result. -/
def after {α : Type} (a : Action α) (w : World) (next : Except Failure α → Stage) : Stage × World :=
  (next (exec a w).1, (exec a w).2)

/-- The next stage of a request. -/
def next : Stage → World → Stage × World
  | asked, w =>
    match request with
    | .compile name => (resolving name, w)
    | .resolve name base => after (l.resolve name base) w fun r => answered (r.map .source)
    | .openResource name =>
      match l.target? name with
      | some n => (resolving n, w)
      | none => after (l.passThrough name) w fun
        | .ok none =>
          match l.fallback? name with
          | some n => resolving n
          | none => answered (.ok (.bytes none))
        | r => answered ((Loader.answer r).map .bytes)
  | resolving n, w => after (l.resolve n none) w fun
    | .ok s => looking n s
    | .error f => compiled n (.error f)
  | looking n s, w => after (l.cached s) w fun
    | .ok (some code) => compiled n (.ok code)
    | .ok none => compiling n s
    | .error f => compiled n (.error f)
  | compiling n s, w => after (do Action.record (.compiling n); l.compiler.compile l.resolver n) w fun
    | .ok code => storing n s code
    | .error f => compiled n (.error f)
  | storing n s code, w => after (l.store s code) w fun r => compiled n (r.map fun _ => code)
  | compiled n r, w => (compiled n r, w)
  | answered a, w => (answered a, w)

/-- The answer to a request when a source has been compiled for it. -/
def conclude : Request → Except Failure String → Except Failure Answer
  | .openResource _, r => (Loader.answer ((r.bind (encodeText l.config.encoding)).map some)).map .bytes
  | _, r => r.map .code

/-- The answer to a request, once it is there. -/
def answer? : Stage → Option (Except Failure Answer)
  | compiled _ r => some (conclude l request r)
  | answered a => some a
  | _ => none

/-- So many stages of a request. -/
def run : Nat → Stage → World → Stage × World
  | 0, stage, w => (stage, w)
  | n + 1, stage, w => run n (next l request stage w).1 (next l request stage w).2

variable {l request}

theorem run_compiled (k : Nat) (n : String) (r : Except Failure String) (w : World) :
    run l request k (compiled n r) w = (compiled n r, w) := by
  induction k with
  | zero => rfl
  | succ k ih => exact ih

theorem run_answered (k : Nat) (a : Except Failure Answer) (w : World) : run l request k (answered a) w = (answered a, w) := by
  induction k with
  | zero => rfl
  | succ k ih => exact ih

/-- The stages from a name on are those of compiling its source. -/
theorem run_resolving (n : String) (w : World) :
    run l request 4 (resolving n) w = (compiled n (exec (l.compile n) w).1, (exec (l.compile n) w).2) := by
  unfold Loader.compile
  rw [exec_bind, run, next, after]
  generalize exec (l.resolve n none) w = p
  rcases p with ⟨f | s, w₁⟩
  · exact run_compiled 3 n _ _
  simp only
  rw [exec_bind, run, next, after]
  generalize exec (l.cached s) w₁ = p
  rcases p with ⟨f | found, w₂⟩
  · exact run_compiled 2 n _ _
  cases found with
  | some code => exact run_compiled 2 n _ _
  | none =>
    simp only
    rw [run, next, after]
    simp only [exec_bind, exec_record]
    generalize exec (l.compiler.compile l.resolver n) _ = p
    rcases p with ⟨f | code, w₃⟩
    · exact run_compiled 1 n _ _
    simp only
    rw [run, next, after]
    generalize exec (l.store s code) w₃ = p
    rcases p with ⟨f | _, w₄⟩
    · rfl
    · rfl

/-- The bytes of compiled code. -/
theorem exec_load (n : String) (w : World) :
    exec (some <$> l.load n) w =
      (((exec (l.compile n) w).1.bind (encodeText l.config.encoding)).map some, (exec (l.compile n) w).2) := by
  rw [exec_map]
  unfold Loader.load
  rw [exec_bind]
  generalize exec (l.compile n) w = p
  rcases p with ⟨f | code, w'⟩
  · rfl
  · simp only [exec_ofExcept, mapError_id, Except.bind]

/-- A stage has the answer and the world that a request gives, but for the record of events. -/
def Finishes (l : Loader) (request : Request) (p : Stage × World) (result : Except Failure Answer × World) : Prop :=
  p.1.answer? l request = some result.1 ∧ ∃ es, p.2 = { result.2 with events := es }

/-- All stages of a request, one after the other, are the request. -/
theorem run_asked (w : World) : Finishes l request (run l request 5 asked w) (exec (request.ask l) w) := by
  cases request with
  | compile name =>
    have hrun : run l (.compile name) 5 asked w = _ := run_resolving name w
    rw [hrun, Request.ask, exec_map]
    exact ⟨rfl, _, rfl⟩
  | resolve name base =>
    have hrun : run l (.resolve name base) 5 asked w = _ := run_answered 4 _ _
    rw [hrun, Request.ask, exec_map]
    exact ⟨rfl, _, rfl⟩
  | openResource name =>
    obtain ⟨es, hexec⟩ := Loader.exec_openResource l name w
    rw [Request.ask, exec_map, hexec, Loader.openName_eq, run, next]
    cases htarget : l.target? name with
    | some n =>
      simp only
      rw [run_resolving, exec_load]
      exact ⟨rfl, _, rfl⟩
    | none =>
      simp only
      rw [exec_bind, after, Loader.exec_passThrough]
      generalize l.lookup.open? w.host name = r
      rcases r with f | _ | bs
      · simp only
        rw [run_answered]
        exact ⟨rfl, _, rfl⟩
      · cases l.fallback? name with
        | some n =>
          simp only
          rw [run_resolving, exec_load]
          exact ⟨rfl, _, rfl⟩
        | none =>
          simp only
          rw [run_answered]
          exact ⟨rfl, _, rfl⟩
      · simp only
        rw [run_answered]
        exact ⟨rfl, _, rfl⟩

end Stage

end ScriptLoader
