import ScriptLoader.Cache.Code
import ScriptLoader.Proofs.Action
import ScriptLoader.Proofs.Cache.Disk

/-!
# Requests to code caches

What a request to a cache does to a world: a memory is read and changed under one URI (`lookup_remember`), and a disk cache changes files
and nothing else (`exec_put_disk`, `exec_clear_disk`).
-/

namespace ScriptLoader.Cache

open Files CodeCache

/-- Compiled code by URI, with the fingerprint of the content that it was made from. -/
abbrev Memory := List (String × String × String)

theorem lookup_filter_of_ne {β : Type} (es : List (String × β)) {a b : String} (h : b ≠ a) :
    (es.filter fun e => !(e.1 == a)).lookup b = es.lookup b := by
  induction es with
  | nil => rfl
  | cons e es ih =>
    rcases e with ⟨c, v⟩
    by_cases hc : c = a
    · have hb : (b == c) = false := by simp [hc, h]
      simp only [hc, beq_self_eq_true, Bool.not_true, Bool.false_eq_true, not_false_eq_true, List.filter_cons_of_neg, ih]
      rw [List.lookup_cons, ← hc, hb]
    · simp [List.lookup_cons, ih, hc]

theorem lookup_remember (memory : Memory) (s : Source) (code : String) (uri : String) :
    (remember memory s code).lookup uri = if uri = s.uri then some (s.fingerprint, code) else memory.lookup uri := by
  rw [remember, List.lookup_cons]
  split
  · rename_i h
    rw [if_pos (by simpa using h)]
  · rename_i h
    have hne : uri ≠ s.uri := by simpa using h
    rw [if_neg hne, lookup_filter_of_ne _ hne]

section Disk

variable {w : World} {d : Path} {s : Source}

theorem exec_get_disk {found : Found} (hfound : diskGet w.host d s = .ok found) :
    ∃ w', Action.exec ((CodeCache.disk d).get? s) w = (.ok found.code?, w') ∧ w'.host = w.host := by
  simp only [CodeCache.get?, Action.exec_bind, Action.exec_get, hfound, Action.exec_ofExcept, mapError_ok]
  split <;> simp [Except.map]

theorem exec_put_disk (w : World) (d : Path) (s : Source) (code : String) :
    Action.exec ((CodeCache.disk d).put s code) w =
      ((diskPut w.host d s code).2, { w with host := { w.host with files := (diskPut w.host d s code).1 } }) := by
  rcases h : diskPut w.host d s code with ⟨fs, _ | _⟩ <;>
    simp [CodeCache.put, Action.exec_bind, h]

theorem exec_clear_disk (w : World) (d : Path) :
    Action.exec (CodeCache.disk d).clear w =
      ((diskClear w.host d).2, { w with host := { w.host with files := (diskClear w.host d).1 } }) := by
  rcases h : diskClear w.host d with ⟨fs, _ | _⟩ <;>
    simp [CodeCache.clear, Action.exec_bind, h]

end Disk

end ScriptLoader.Cache
