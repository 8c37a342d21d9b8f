import ScriptLoader.Proofs.Cache.Disk
import ScriptLoader.Proofs.Files.Names

/-!
# How the disk cache fails

Whatever the system refuses, the disk cache reports it as an error of its own, which a loader does without. Only a NUL in the path of
its directory escapes (`failure_of_diskGet`, `failure_of_diskPut`).
-/

namespace ScriptLoader.Cache

open Files FileSystem

/-- An error of a code cache. -/
def IsStoreError (f : Failure) : Prop := ∃ cause, f = .load (.cacheStore cause)

/-- What a read or a write of the disk cache fails with: an error of its own, or a path with a NUL below these names. -/
def FailsAt (ns : List String) (f : Failure) : Prop := IsStoreError f ∨ (f = .invalid nulReport ∧ ¬NulFree ns)

theorem failsAt_storeFailure {ns : List String} {cause : String → String → Cause} {p : Path} {f : PathFault}
    (hnul : f = .nulCharacter → ¬NulFree ns) : FailsAt ns (storeFailure cause p f) := by
  cases f with
  | system f => exact .inl ⟨_, rfl⟩
  | nulCharacter => exact .inr ⟨rfl, hnul rfl⟩

theorem nulFree_entryPath {d : Path} (s : Source) (h : NulFree d.names) : NulFree (entryPath d s).names := by
  rw [entryPath_eq]
  refine h.append fun n hn => ?_
  rw [List.mem_singleton.mp hn]
  exact Entry.not_mem_fileName (by decide) (by decide) s

/-- Nothing is read from a directory whose path holds a NUL. -/
theorem diskGet_of_nul {h : Host} {d : Path} (s : Source) (hnul : ¬NulFree d.names) : diskGet h d s = .error (.invalid nulReport) := by
  have hentry : ¬NulFree (entryPath d s).names := by
    rw [entryPath_eq]
    exact fun hfree => hnul (hfree.of_subset fun n hn => List.mem_append_left _ hn)
  rw [diskGet]
  simp only [read_of_nul hentry, storeFailure]

theorem failure_of_diskGet {h : Host} {d : Path} {s : Source} {f : Failure} (hget : diskGet h d s = .error f) :
    FailsAt d.names f := by
  simp only [diskGet] at hget
  split at hget
  · cases hget
  · rename_i fault _ hread
    rw [← Except.error.inj hget]
    refine failsAt_storeFailure fun hnul hfree => ?_
    exact nul_of_read (hnul ▸ hread) (nulFree_entryPath s hfree)
  · split at hget
    · exact .inl ⟨_, (Except.error.inj hget).symm⟩
    · cases hget

theorem failsAt_attempt {ns : List String} {h : Host} {step : WriteStep} {p : Path} {r : Except PathFault FileSystem} {f : Failure}
    (hnul : r = .error .nulCharacter → ¬NulFree ns) (hfails : attempt h step p r = .error f) : FailsAt ns f := by
  unfold attempt at hfails
  split at hfails
  · exact .inl ⟨_, (Except.error.inj hfails).symm⟩
  · obtain ⟨fault, hr, rfl⟩ := mapError_eq_error_iff.mp hfails
    exact failsAt_storeFailure fun hf => hnul (hf ▸ hr)

theorem failsAt_prepare {h : Host} {d p : Path} {f : Failure} (hfails : (prepare h d p).2 = .error f) : FailsAt d.names f := by
  unfold prepare at hfails
  split at hfails
  · exact .inl ⟨_, (Except.error.inj hfails).symm⟩
  · split at hfails
    · nomatch hfails
    · rename_i fault hmade
      rw [← Except.error.inj hfails]
      exact failsAt_storeFailure fun hnul => nul_of_ensureDirectories (by rw [hmade, hnul])

/-- The names of the temporary file are those of the directory as seen from the root, and one without a NUL. -/
theorem nulFree_temporaryAt {h : Host} {d : Path} {fs : FileSystem} {loc : Location} (hfree : NulFree (h.here.join d).names) :
    NulFree (temporaryAt h d (temporaryName fs loc)).names := by
  refine (Path.nulFree_dropParents hfree).append fun n hn => ?_
  obtain ⟨k, -, hk⟩ := List.mem_map.mp (temporaryName_free fs loc).1
  rw [List.mem_singleton.mp hn, ← hk]
  have hdigits : '\x00' ∉ Nat.toDigits 10 k := by
    intro hc
    have hdigit : '\x00'.isDigit = true := Nat.isDigit_of_mem_toDigits (by decide : 0 < 10) (by decide) hc
    revert hdigit
    decide
  simp [hdigits]

theorem failsAt_temporaryPath {h : Host} {fs : FileSystem} {d : Path} {f : PathFault} {cause : String → String → Cause} {p : Path}
    (hfails : temporaryPath h fs d = .error f) : FailsAt (h.here.join d).names (storeFailure cause p f) := by
  refine failsAt_storeFailure fun hnul hfree => ?_
  rw [hnul] at hfails
  rcases bind_eq_error_iff.mp hfails with hl | ⟨l, -, hl⟩
  · exact nul_of_locate hl (Path.nulFree_dropParents hfree)
  · split at hl
    · nomatch hl
    · split at hl <;> nomatch hl

theorem failsAt_moveIn {h : Host} {fs : FileSystem} {t d : Path} {s : Source} {bs : Bytes} {ns : List String} {f : Failure}
    (ht : NulFree ns → NulFree t.names) (hd : NulFree ns → NulFree d.names) (hfails : (moveIn h fs t (entryPath d s) bs).2 = .error f) :
    FailsAt ns f := by
  have hentry (hfree : NulFree ns) : NulFree (entryPath d s).names := nulFree_entryPath s (hd hfree)
  unfold moveIn at hfails
  split at hfails
  · rename_i hcreate
    rw [← Except.error.inj hfails]
    exact failsAt_attempt (fun hw hfree => nul_of_write hw (ht hfree)) hcreate
  · rename_i opened _
    simp only at hfails
    split at hfails
    · cases hfails
    · rename_i f' hmoved
      have hfault : f' = f := by split at hfails <;> exact Except.error.inj hfails
      rw [← hfault]
      -- the step that was refused
      rcases bind_eq_error_iff.mp hmoved with hw | ⟨written, -, hmoved⟩
      · exact failsAt_attempt (fun hw hfree => nul_of_write hw (ht hfree)) hw
      · rcases bind_eq_error_iff.mp hmoved with hl | ⟨l, -, hmoved⟩
        · obtain ⟨fault, hlocate, rfl⟩ := mapError_eq_error_iff.mp hl
          exact failsAt_storeFailure fun hnul hfree => nul_of_locate (hnul ▸ hlocate) (ht hfree)
        · exact failsAt_attempt (fun hr hfree => nul_of_replace hr (hentry hfree)) hmoved

theorem failure_of_diskPut {h : Host} {d : Path} {s : Source} {code : String} {f : Failure}
    (hput : (diskPut h d s code).2 = .error f) : FailsAt (h.here.join d).names f := by
  have hd (hfree : NulFree (h.here.join d).names) : NulFree d.names := NulFree.of_join hfree
  unfold diskPut at hput
  simp only at hput
  split at hput
  · rename_i hprepare
    obtain rfl := Except.error.inj hput
    rcases failsAt_prepare (congrArg Prod.snd hprepare) with hstore | ⟨hinvalid, hnul⟩
    · exact .inl hstore
    · exact .inr ⟨hinvalid, fun hfree => hnul (hd hfree)⟩
  · split at hput
    · rename_i hpath
      rw [← Except.error.inj hput]
      exact failsAt_temporaryPath hpath
    · rename_i t hpath
      obtain ⟨loc, -, rfl⟩ := temporaryPath_eq_ok_iff.mp hpath
      exact failsAt_moveIn nulFree_temporaryAt hd hput

end ScriptLoader.Cache
