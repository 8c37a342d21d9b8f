import ScriptLoader.Proofs.Loader.Caching
import ScriptLoader.Proofs.Loader.Command
import ScriptLoader.Proofs.Loader.Requests

/-!
# Runs of a loader

A run is any sequence of requests to a loader, with whatever else happens to files, pages and memory between them (`Loader.Onward`). What
holds across every name that is resolved and depends on nothing but what is known about names holds across every request
(`Carries.request`), and so across every run (`Carries.onward`).
-/

namespace ScriptLoader

open Action Text

/-- A tracked relation that depends on nothing but what is known about names. -/
structure Carries (r : Resolver) (R : World → World → Prop) : Prop extends Tracks r R where
  outside : ∀ {w w' : World}, w'.identities = w.identities → R w w'

/-- From one world to another by requests to a loader and by whatever else happens outside of it. -/
inductive Loader.Onward (l : Loader) (w : World) : World → Prop where
  | here : Onward l w w
  | request {w' : World} (before : Onward l w w') (request : Request) : Onward l w (exec (request.ask l) w').2
  | outside {w' : World} (before : Onward l w w') (h : Host) (memory : List (String × String × String)) :
      Onward l w { w' with host := h, memory }

namespace Carries

variable {l : Loader} {R : World → World → Prop} (h : Carries l.resolver R)
include h

theorem put (c : CodeCache) (s : Source) (code : String) : Within R (c.put s code) := by
  intro w
  cases c with
  | nowhere => exact h.refl w
  | memory => exact h.outside rfl
  | failing => exact h.refl w
  | disk d =>
    rw [Cache.exec_put_disk]
    exact h.outside rfl

/-- A command changes nothing that is known about names. -/
theorem commandOn (words : List String) (timeout : Option Int) (encoding name : String) (s : Source) :
    Within R (Compiler.commandOn words timeout encoding name s) := by
  intro w
  by_cases hwords : words = []
  · subst hwords
    exact h.outside rfl
  · cases hinput : encodeText encoding s.content with
    | error f =>
      obtain ⟨es, hexec⟩ := Compiler.exec_commandOn_of_unencodable timeout name w hwords hinput
      rw [hexec]
      exact h.outside rfl
    | ok input =>
      obtain ⟨es, hexec⟩ := Compiler.exec_commandOn timeout name w hwords hinput
      rw [hexec]
      exact h.outside rfl

theorem compiler (name : String) : Within R (l.compiler.compile l.resolver name) := by
  cases l.compiler with
  | eraser config checkImports => exact h.erase config checkImports name
  | command words timeout encoding => exact h.bind (h.resolve name none) fun s => h.commandOn words timeout encoding name s

theorem compile (name : String) : Within R (l.compile name) := by
  refine h.bind (h.resolve name none) fun s => h.bind (h.tolerate _ _ (h.get? l.cache s)) fun found => ?_
  cases found with
  | some code => exact h.pure _
  | none =>
    refine h.bind (h.record _) fun _ => h.bind (h.compiler name) fun code => ?_
    exact h.bind (h.tolerate _ _ (h.put l.cache s code)) fun _ => h.pure _

theorem load (name : String) : Within R (l.load name) := h.bind (h.compile name) fun _ => h.ofExcept _ _

theorem openName (name : String) : Within R (l.openName name) := by
  rw [Loader.openName_eq]
  split
  · exact (h.load _).map _
  · refine h.bind (fun w => ?_) fun found => ?_
    · rw [Loader.exec_passThrough]
      exact h.outside rfl
    · split
      · exact h.pure _
      · split
        · exact (h.load _).map _
        · exact h.pure _

/-- What is carried is carried by every request. -/
theorem request (request : Request) : Within R (request.ask l) := by
  cases request with
  | openResource name =>
    refine Within.map _ fun w => ?_
    obtain ⟨es, hexec⟩ := Loader.exec_openResource l name w
    rw [hexec]
    exact h.trans (h.openName name w) (h.outside rfl)
  | compile name => exact (h.compile name).map _
  | resolve name base => exact (h.resolve name base).map _

/-- What is carried is carried by every run. -/
theorem onward {w w' : World} (hrun : l.Onward w w') : R w w' := by
  induction hrun with
  | here => exact h.refl w
  | request _ request ih => exact h.trans ih (h.request request _)
  | outside _ _ _ ih => exact h.trans ih (h.outside rfl)

end Carries

end ScriptLoader
