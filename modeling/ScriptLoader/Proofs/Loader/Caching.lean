import ScriptLoader.Proofs.Cache.Code
import ScriptLoader.Proofs.Cache.Failures
import ScriptLoader.Proofs.Loader.Resolution

/-!
# A loader and its cache

A loader does without a cache that fails: no error of a cache comes out of it, whatever the cache is (`failure_of_cached`,
`failure_of_store`). To ask the cache changes nothing but the record of events.
-/

namespace ScriptLoader

open Action Cache

theorem Tracks.get? {r : Resolver} {R : World → World → Prop} (h : Tracks r R) (c : CodeCache) (s : Source) : Within R (c.get? s) := by
  refine h.bind h.get fun w => ?_
  cases c with
  | nowhere => exact h.pure _
  | memory => exact h.pure _
  | disk d =>
    refine h.bind (h.ofExcept _ _) fun found => ?_
    split
    · exact h.bind (h.log _ _ _) fun _ => h.pure _
    · exact h.pure _
  | failing => exact h.throw _

/-- Errors of a cache are logged, and otherwise not noticed. -/
theorem Tracks.tolerate {α : Type} {r : Resolver} {R : World → World → Prop} (h : Tracks r R) (complaint : String) (none : α)
    {action : Action α} (ha : Within R action) : Within R (Loader.tolerate complaint none action) := by
  refine h.tryCatch ha fun f => ?_
  split
  · split
    · exact h.bind (h.log _ _ _) fun _ => h.pure _
    · exact h.throw _
  · exact h.throw _

namespace Loader

variable {l : Loader} {s : Source} {w w' : World} {f : Failure}

/-- A result without errors of a cache. -/
def withoutStoreErrors {α : Type} (none : α) : Except Failure α → Except Failure α
  | .error (.load e) => if e.kind = .cacheStore then .ok none else .error (.load e)
  | r => r

/-- To tolerate errors of a cache changes nothing in a world but the record of events. -/
theorem exec_tolerate {α : Type} (complaint : String) (none : α) (action : Action α) (w : World) :
    ∃ es, exec (tolerate complaint none action) w = (withoutStoreErrors none (exec action w).1, { (exec action w).2 with events := es }) := by
  unfold tolerate
  rw [exec_tryCatch]
  generalize exec action w = p
  rcases p with ⟨f | x, w'⟩
  · cases f with
    | load e =>
      by_cases hkind : e.kind = .cacheStore
      · simp only [withoutStoreErrors, if_pos hkind]
        exact ⟨_, rfl⟩
      · simp only [withoutStoreErrors, if_neg hkind]
        exact ⟨w'.events, rfl⟩
    | _ => exact ⟨w'.events, rfl⟩
  · exact ⟨w'.events, rfl⟩

/-- What comes out of an action whose cache errors are tolerated is no error of a cache. -/
theorem failure_of_tolerate {α : Type} {complaint : String} {none : α} {action : Action α}
    (hfails : exec (tolerate complaint none action) w = (.error f, w')) :
    (∃ w₁, exec action w = (.error f, w₁)) ∧ ¬IsStoreError f := by
  obtain ⟨es, hexec⟩ := exec_tolerate complaint none action w
  have hresult := (Prod.mk.inj (hexec.symm.trans hfails)).1
  have haction : (exec action w).1 = .error f ∧ ¬IsStoreError f := by
    generalize (exec action w).1 = r at hresult
    unfold withoutStoreErrors at hresult
    split at hresult
    · split at hresult
      · nomatch hresult
      · rename_i e hkind
        refine ⟨hresult, ?_⟩
        rintro ⟨cause, rfl⟩
        rw [Failure.load.inj (Except.error.inj hresult)] at hkind
        exact hkind rfl
    · rename_i hload
      refine ⟨hresult, ?_⟩
      rintro ⟨cause, rfl⟩
      exact hload _ hresult
  exact ⟨⟨_, Prod.ext haction.1 rfl⟩, haction.2⟩

theorem learning_cached {r : Resolver} (l : Loader) (s : Source) : Learning r (l.cached s) :=
  r.tracks_learns.tolerate _ _ (r.tracks_learns.get? l.cache s)

/-- Code that a loader finds in its cache is what the cache has for the source. -/
theorem code_of_cached {code : String} (h : exec (l.cached s) w = (.ok (some code), w')) :
    (exec (l.cache.get? s) w).1 = .ok (some code) := by
  obtain ⟨es, hexec⟩ := exec_tolerate ("Ignoring unreadable cache entry for " ++ s.uri) none (l.cache.get? s) w
  have hresult := (Prod.mk.inj (hexec.symm.trans h)).1
  generalize (exec (l.cache.get? s) w).1 = r at hresult
  unfold withoutStoreErrors at hresult
  split at hresult
  · split at hresult <;> nomatch hresult
  · exact hresult

/-- Code that a loader finds in a directory. -/
theorem diskGet_of_cached {d : Path} {code : String} (hcache : l.cache = .disk d)
    (hcached : exec (l.cached s) w = (.ok (some code), w')) : diskGet w.host d s = .ok (.code code) := by
  have hget := code_of_cached hcached
  rw [hcache] at hget
  cases hfound : diskGet w.host d s with
  | error f => simp [CodeCache.get?, hfound, exec_bind] at hget
  | ok found =>
    obtain ⟨w₁, hexec, -⟩ := exec_get_disk hfound
    rw [hexec] at hget
    have hcode : found.code? = some code := Except.ok.inj hget
    cases found with
    | nothing => cases hcode
    | stale => cases hcode
    | code text => rw [Option.some.inj hcode]

/-- What is found in a directory. -/
theorem exec_cached_disk {d : Path} {found : Found} (hcache : l.cache = .disk d) (hget : diskGet w.host d s = .ok found) :
    ∃ w', exec (l.cached s) w = (.ok found.code?, w') ∧ w'.host = w.host := by
  obtain ⟨w₁, hfound, hhost⟩ := exec_get_disk hget
  obtain ⟨es, hexec⟩ := exec_tolerate ("Ignoring unreadable cache entry for " ++ s.uri) none (l.cache.get? s) w
  rw [hcache, hfound] at hexec
  rw [cached, hcache]
  exact ⟨_, hexec, hhost⟩

/-- To keep code in a directory changes files and nothing else but the record of events. -/
theorem exec_store_disk {d : Path} (hcache : l.cache = .disk d) (s : Source) (code : String) (w : World) :
    ∃ es, (exec (l.store s code) w).2 =
      { w with host := { w.host with files := (diskPut w.host d s code).1 }, events := es } := by
  obtain ⟨es, hexec⟩ := exec_tolerate ("Could not cache compiled code for " ++ s.uri) () (l.cache.put s code) w
  refine ⟨es, ?_⟩
  rw [store, hexec, hcache, exec_put_disk]

/-- The directory of a disk cache has a NUL in its path. -/
def HasNulDirectory (l : Loader) (h : Host) : Prop := ∃ d, l.cache = .disk d ∧ ¬NulFree (h.here.join d).names

theorem HasNulDirectory.of_cwd {h h' : Host} (hnul : l.HasNulDirectory h') (hcwd : h'.cwd = h.cwd) : l.HasNulDirectory h := by
  obtain ⟨d, hd, hfree⟩ := hnul
  exact ⟨d, hd, by rwa [Host.here, ← hcwd]⟩

theorem escapes_of_failsAt {d : Path} {h : Host} {ns : List String} (hcache : l.cache = .disk d)
    (hns : NulFree (h.here.join d).names → NulFree ns) (hfails : FailsAt ns f) (hstore : ¬IsStoreError f) :
    f = .invalid Files.nulReport ∧ l.HasNulDirectory h := by
  rcases hfails with hcause | ⟨hinvalid, hnul⟩
  · exact absurd hcause hstore
  · exact ⟨hinvalid, d, hcache, fun hfree => hnul (hns hfree)⟩

/-- To ask the cache fails only if there is a NUL in the path of its directory. -/
theorem failure_of_cached (hfails : exec (l.cached s) w = (.error f, w')) :
    f = .invalid Files.nulReport ∧ l.HasNulDirectory w.host := by
  obtain ⟨⟨w₁, hget⟩, hstore⟩ := failure_of_tolerate hfails
  unfold CodeCache.get? at hget
  rw [exec_bind, exec_get] at hget
  cases hcache : l.cache with
  | nowhere =>
    rw [hcache] at hget
    nomatch hget
  | memory =>
    rw [hcache] at hget
    nomatch hget
  | failing =>
    rw [hcache] at hget
    exact absurd ⟨_, (Except.error.inj (Prod.mk.inj hget).1).symm⟩ hstore
  | disk d =>
    rw [hcache] at hget
    rcases exec_bind_eq_error.mp hget with hget | ⟨found, w₂, -, hlog⟩
    · rw [exec_ofExcept] at hget
      obtain ⟨f', hdisk, rfl⟩ := mapError_eq_error_iff.mp (Prod.mk.inj hget).1
      exact escapes_of_failsAt hcache NulFree.of_join (failure_of_diskGet hdisk) hstore
    · split at hlog <;> nomatch hlog

/-- A directory whose path holds a NUL cannot be asked for code. -/
theorem cached_of_nul {d : Path} (hcache : l.cache = .disk d) (hnul : ¬NulFree d.names) (s : Source) (w : World) :
    (exec (l.cached s) w).1 = .error (.invalid Files.nulReport) := by
  obtain ⟨es, hexec⟩ := exec_tolerate ("Ignoring unreadable cache entry for " ++ s.uri) none (l.cache.get? s) w
  have hget : (exec (l.cache.get? s) w).1 = .error (.invalid Files.nulReport) := by
    simp only [hcache, CodeCache.get?, exec_bind, exec_get, diskGet_of_nul s hnul, exec_ofExcept]
    rfl
  rw [cached, hexec, hget]
  rfl

/-- To keep code fails only if there is a NUL in the path of the directory of the cache. -/
theorem failure_of_store {code : String} (hfails : exec (l.store s code) w = (.error f, w')) :
    f = .invalid Files.nulReport ∧ l.HasNulDirectory w.host := by
  obtain ⟨⟨w₁, hput⟩, hstore⟩ := failure_of_tolerate hfails
  cases hcache : l.cache with
  | nowhere =>
    rw [hcache] at hput
    nomatch hput
  | memory =>
    rw [hcache] at hput
    nomatch hput
  | failing =>
    rw [hcache] at hput
    exact absurd ⟨_, (Except.error.inj (Prod.mk.inj hput).1).symm⟩ hstore
  | disk d =>
    rw [hcache] at hput
    exact escapes_of_failsAt hcache id (failure_of_diskPut (Prod.mk.inj ((exec_put_disk w d s code).symm.trans hput)).1) hstore

end Loader

end ScriptLoader
