import ScriptLoader.World

/-!
# Carrying out actions

What an action does to a world, one law for each way in which actions are put together. Proofs about actions use these laws and never
open the monad.
-/

namespace ScriptLoader

/-- A world with nothing but some files. -/
def plainWorld (nodes : List (Files.Location × Files.Node)) : World where
  host := { files := ⟨nodes⟩, cwd := [], packageRoots := [], pages := [], run := fun fs _ _ _ _ => (.unavailable "", fs)
            trouble := fun _ => none }
  identities := .empty
  memory := []
  events := []

namespace Action

variable {α β ε : Type}

/-- Carries an action out in a world. -/
def exec (a : Action α) (w : World) : Except Failure α × World := a.run.run w

@[simp] theorem exec_pure (a : α) (w : World) : exec (pure a) w = (.ok a, w) := rfl

@[simp] theorem exec_throw (f : Failure) (w : World) : exec (throw f : Action α) w = (.error f, w) := rfl

/-- The second part is carried out in the world that the first one leaves, unless that one fails. -/
theorem exec_bind (a : Action α) (k : α → Action β) (w : World) :
    exec (a >>= k) w =
      match exec a w with
      | (.ok x, w') => exec (k x) w'
      | (.error f, w') => (.error f, w') := by
  rw [exec, ExceptT.run_bind, StateT.run_bind, show a.run.run w = exec a w from rfl]
  rcases exec a w with ⟨_ | _, _⟩ <;> rfl

/-- A function of the result. -/
@[simp] theorem exec_map (f : α → β) (a : Action α) (w : World) : exec (f <$> a) w = ((exec a w).1.map f, (exec a w).2) := by
  rw [exec, ExceptT.run_map, StateT.run_map, show a.run.run w = exec a w from rfl]
  rcases exec a w with ⟨_ | _, _⟩ <;> rfl

/-- A failure is handled in the world that it leaves. -/
theorem exec_tryCatch (a : Action α) (k : Failure → Action α) (w : World) :
    exec (tryCatch a k) w =
      match exec a w with
      | (.ok x, w') => (.ok x, w')
      | (.error f, w') => exec (k f) w' := by
  rw [exec, ExceptT.run_tryCatch, StateT.run_bind, show a.run.run w = exec a w from rfl]
  rcases exec a w with ⟨_ | _, _⟩ <;> rfl

@[simp] theorem exec_get (w : World) : exec get w = (.ok w, w) := rfl

@[simp] theorem exec_set (w w' : World) : exec (set w') w = (.ok (), w') := rfl

@[simp] theorem exec_host (w : World) : exec host w = (.ok w.host, w) := rfl

@[simp] theorem exec_record (e : Event) (w : World) : exec (record e) w = (.ok (), { w with events := e :: w.events }) := rfl

@[simp] theorem exec_log (level : Level) (origin text : String) (w : World) :
    exec (log level origin text) w = (.ok (), { w with events := .logged level origin text :: w.events }) := rfl

@[simp] theorem exec_setFiles (fs : Files.FileSystem) (w : World) :
    exec (setFiles fs) w = (.ok (), { w with host := { w.host with files := fs } }) := rfl

@[simp] theorem exec_ofExcept (failure : ε → Failure) (r : Except ε α) (w : World) :
    exec (ofExcept failure r) w = (r.mapError failure, w) := by
  cases r <;> rfl

/-- A chain that succeeds. -/
theorem exec_bind_eq_ok {a : Action α} {k : α → Action β} {w w'' : World} {y : β} :
    exec (a >>= k) w = (.ok y, w'') ↔ ∃ x w', exec a w = (.ok x, w') ∧ exec (k x) w' = (.ok y, w'') := by
  rw [exec_bind]
  rcases exec a w with ⟨_ | x, w'⟩
  · simp
  · constructor
    · intro h
      exact ⟨x, w', rfl, h⟩
    · rintro ⟨_, _, h, hk⟩
      cases h
      exact hk

/-- A chain that fails. -/
theorem exec_bind_eq_error {a : Action α} {k : α → Action β} {w w'' : World} {f : Failure} :
    exec (a >>= k) w = (.error f, w'') ↔
      exec a w = (.error f, w'') ∨ ∃ x w', exec a w = (.ok x, w') ∧ exec (k x) w' = (.error f, w'') := by
  rw [exec_bind]
  rcases exec a w with ⟨_ | x, w'⟩
  · simp
  · constructor
    · intro h
      exact .inr ⟨x, w', rfl, h⟩
    · rintro (h | ⟨_, _, h, hk⟩)
      · nomatch h
      · cases h
        exact hk

theorem exec_map_eq_error {a : Action α} {g : α → β} {w w' : World} {f : Failure} :
    exec (g <$> a) w = (.error f, w') ↔ exec a w = (.error f, w') := by
  rw [exec_map]
  rcases exec a w with ⟨_ | x, w''⟩ <;> simp [Except.map]

/-- A failure that is not handled, or comes from its handler. -/
theorem exec_tryCatch_eq_error {a : Action α} {k : Failure → Action α} {w w'' : World} {f : Failure} :
    exec (tryCatch a k) w = (.error f, w'') ↔ ∃ f' w', exec a w = (.error f', w') ∧ exec (k f') w' = (.error f, w'') := by
  rw [exec_tryCatch]
  rcases exec a w with ⟨f' | x, w'⟩
  · constructor
    · intro h
      exact ⟨f', w', rfl, h⟩
    · rintro ⟨_, _, h, hk⟩
      cases h
      exact hk
  · simp

end Action

end ScriptLoader
