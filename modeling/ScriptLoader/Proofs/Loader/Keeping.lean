import ScriptLoader.Proofs.Cache.Disk
import ScriptLoader.Proofs.Loader.Caching

/-!
# What the caches of loaders keep

Loaders may share a memory and a directory for their caches. When every entry in them has some property (`Keeping`), what a loader
finds in its cache comes from an entry that has it (`Keeping.cached`), and when code is stored under an entry that has it, the property
stays (`Keeping.store`). To store code changes no link, so that nothing leads anywhere else afterwards.
-/

namespace ScriptLoader

open Action Cache Files FileSystem

/-- The directory of the cache is at a location, if it has one, whether it is there already or not. -/
def CodeCache.StandsAt (c : CodeCache) (h : Host) (loc : Location) : Prop :=
  ∀ d, c = .disk d → h.files.Leads (d.start h.cwd) d.names loc

/-- Every entry in the directory at `loc` and every entry of the memory is good, and no file of the directory is a link. -/
structure Keeping (good : Entry → Prop) (loc : Location) (w : World) : Prop where
  plain : ∀ n target, w.host.files.node? (loc ++ [n]) ≠ some (.link target)
  files : ∀ n bs e, w.host.files.node? (loc ++ [n]) = some (.file bs) → Entry.ofBytes? bs = some e → good e
  memory : ∀ uri fingerprint code, w.memory.lookup uri = some (fingerprint, code) → good ⟨uri, fingerprint, code⟩

variable {good : Entry → Prop} {loc : Location} {w w' : World} {l : Loader} {s : Source} {code : String} {d : Path}

theorem Cache.LeadsInto.eq_of_leads {fs : FileSystem} {cwd loc' : Location} (h : LeadsInto fs cwd d loc')
    (hleads : fs.Leads (d.start cwd) d.names loc) : loc' = loc :=
  (locate_eq_ok_iff.mp h.1).2.leads.unique hleads

namespace Keeping

theorem mono {good' : Entry → Prop} (h : Keeping good loc w) (hgood : ∀ e, good e → good' e) : Keeping good' loc w :=
  ⟨h.plain, fun n bs e hfile he => hgood e (h.files n bs e hfile he), fun uri f c hm => hgood _ (h.memory uri f c hm)⟩

/-- Only the files of the directory and the memory matter. -/
theorem congr (h : Keeping good loc w) (hfiles : ∀ n, w'.host.files.node? (loc ++ [n]) = w.host.files.node? (loc ++ [n]))
    (hmemory : w'.memory = w.memory) : Keeping good loc w' := by
  refine ⟨fun n => ?_, fun n => ?_, ?_⟩
  · rw [hfiles n]
    exact h.plain n
  · rw [hfiles n]
    exact h.files n
  · rw [hmemory]
    exact h.memory

theorem learns {r : Resolver} (h : Keeping good loc w) (hlearns : Learns r w w') : Keeping good loc w' :=
  h.congr (fun n => by rw [hlearns.host]) hlearns.memory

/-! ## What is found -/

theorem diskGet (h : Keeping good loc w) (hleads : w.host.files.Leads (d.start w.host.cwd) d.names loc)
    (hget : diskGet w.host d s = .ok (.code code)) : good ⟨s.uri, s.fingerprint, code⟩ := by
  obtain ⟨bs, e, hread, he, hfits, rfl⟩ := read_of_diskGet hget
  obtain ⟨l, hl, hnode⟩ := read_eq_ok_iff.mp hread
  obtain ⟨loc', hinto, hend⟩ := locate_entry hl
  obtain rfl := hinto.eq_of_leads hleads
  obtain rfl := hend (.inr (h.plain _))
  rw [Entry.fits, Bool.and_eq_true, beq_iff_eq, beq_iff_eq] at hfits
  rw [← hfits.1, ← hfits.2]
  exact h.files _ bs e hnode he

theorem remembered (h : Keeping good loc w) (hget : CodeCache.remembered w.memory s = some code) :
    good ⟨s.uri, s.fingerprint, code⟩ := by
  unfold CodeCache.remembered at hget
  split at hget
  · rename_i fingerprint found hlookup
    split at hget
    · rename_i hfingerprint
      rw [← hfingerprint, ← Option.some.inj hget]
      exact h.memory _ _ _ hlookup
    · nomatch hget
  · nomatch hget

/-- Code that a loader finds comes from a good entry. -/
theorem cached (h : Keeping good loc w) (hcache : l.cache.StandsAt w.host loc)
    (hcached : exec (l.cached s) w = (.ok (some code), w')) : good ⟨s.uri, s.fingerprint, code⟩ := by
  have hget := Loader.code_of_cached hcached
  cases hkind : l.cache with
  | nowhere =>
    rw [hkind] at hget
    cases hget
  | failing =>
    rw [hkind] at hget
    cases hget
  | memory =>
    rw [hkind] at hget
    exact h.remembered (Except.ok.inj hget)
  | disk d => exact h.diskGet (hcache d hkind) (Loader.diskGet_of_cached hkind hcached)

/-! ## What is stored -/

/-- Directories that are made are no entries. -/
theorem grows (h : Keeping good loc w) (hgrows : Grows w.host.files w'.host.files) (hmemory : w'.memory = w.memory) :
    Keeping good loc w' := by
  refine ⟨fun n target hlink => ?_, fun n bs e hfile he => ?_, ?_⟩
  · exact h.plain n target ((hgrows.keepsWays.links _ _).mpr hlink)
  · rcases hgrows (loc ++ [n]) with hsame | ⟨-, hdir⟩
    · exact h.files n bs e (hsame ▸ hfile) he
    · exact absurd (hfile.symm.trans hdir) (by simp)
  · rw [hmemory]
    exact h.memory

/-- An entry that is put into its place. -/
theorem holds (h : Keeping good loc w) (hgood : good (Entry.ofSource s code)) (hmemory : w'.memory = w.memory)
    (hholds : Holds w.host.files (entryAt loc s) (Entry.ofSource s code).bytes w'.host.files) : Keeping good loc w' := by
  refine ⟨fun n target hlink => ?_, fun n bs e hfile he => ?_, ?_⟩
  · rw [hholds] at hlink
    split at hlink
    · nomatch hlink
    · exact h.plain n target hlink
  · rw [hholds] at hfile
    split at hfile
    · obtain rfl := Node.file.inj (Option.some.inj hfile)
      rw [Entry.ofBytes?_bytes] at he
      rwa [← Option.some.inj he]
    · exact h.files n bs e hfile he
  · rw [hmemory]
    exact h.memory

/-- A write to the directory. -/
theorem diskPut (h : Keeping good loc w) (hleads : w.host.files.Leads (d.start w.host.cwd) d.names loc)
    (hgood : good (Entry.ofSource s code)) {fs : FileSystem} {r : Except Failure Unit} (hput : PutResult w.host d s code (fs, r)) :
    Keeping good loc { w with host := { w.host with files := fs } } ∧ SameLinks w.host.files fs := by
  have hgrows := grows_ensureDirectories w.host.files w.host.cwd d
  cases hput with
  | @stored made _ loc' hmade hinto hfree hholds =>
    rw [hmade] at hgrows
    have hlinks := hgrows.keepsWays.links
    obtain rfl := hinto.eq_of_leads (hleads.of_sameLinks hlinks)
    have hmade' : Keeping good loc' { w with host := { w.host with files := made } } := h.grows hgrows rfl
    have hways := hholds.sameWays ⟨hfree, hmade'.plain _⟩
    exact ⟨hmade'.holds hgood rfl hholds, hlinks.trans hways.keepsWays.links⟩
  | @refused made _ _ hmade hsame =>
    have hgrown : Grows w.host.files fs := by
      intro x
      rw [hsame x]
      rcases hmade with rfl | rfl
      · exact .inl rfl
      · exact hgrows x
    exact ⟨h.grows hgrown rfl, hgrown.keepsWays.links⟩

end Keeping

/-- What a loader that stores code may change: the memory, and files, but no link. -/
structure Stores (w w' : World) : Prop where
  links : SameLinks w.host.files w'.host.files
  host : w'.host = { w.host with files := w'.host.files }
  identities : w'.identities = w.identities

theorem Stores.refl (w : World) : Stores w w := ⟨.refl _, rfl, rfl⟩

theorem Stores.cwd (h : Stores w w') : w'.host.cwd = w.host.cwd := by
  rw [h.host]

/-- To store code under a good entry keeps all entries good. -/
theorem Keeping.store (h : Keeping good loc w) (hcache : l.cache.StandsAt w.host loc) (hgood : good (Entry.ofSource s code)) :
    Keeping good loc (exec (l.store s code) w).2 ∧ Stores w (exec (l.store s code) w).2 := by
  obtain ⟨es, hexec⟩ := Loader.exec_tolerate ("Could not cache compiled code for " ++ s.uri) () (l.cache.put s code) w
  have hput : Keeping good loc (exec (l.cache.put s code) w).2 ∧ Stores w (exec (l.cache.put s code) w).2 := by
    cases hkind : l.cache with
    | nowhere => exact ⟨h, .refl w⟩
    | failing => exact ⟨h, .refl w⟩
    | memory =>
      refine ⟨⟨h.plain, h.files, fun uri fingerprint found hlookup => ?_⟩, .refl _, rfl, rfl⟩
      replace hlookup : (CodeCache.remember w.memory s code).lookup uri = some (fingerprint, found) := hlookup
      rw [lookup_remember] at hlookup
      split at hlookup
      · rename_i huri
        obtain ⟨rfl, rfl⟩ := Prod.mk.inj (Option.some.inj hlookup)
        exact huri ▸ hgood
      · exact h.memory _ _ _ hlookup
    | disk d =>
      rw [exec_put_disk]
      obtain ⟨hkeeps, hlinks⟩ := h.diskPut (hcache d hkind) hgood (putResult_diskPut w.host d s code)
      exact ⟨hkeeps, hlinks, rfl, rfl⟩
  rw [Loader.store, hexec]
  exact ⟨hput.1.congr (fun _ => rfl) rfl, hput.2.links, hput.2.host, hput.2.identities⟩

end ScriptLoader
