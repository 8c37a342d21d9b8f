import ScriptLoader.Proofs.Cache.Code

/-!
# A directory that mirrors a memory

A cache in a directory and a cache in memory give the same answers. The directory mirrors the memory (`Mirrors`): for every source, the
file of its entry is there just when the memory has code under its URI, and it holds that code. Each request keeps this, and what is
read from a mirror is what is remembered (`diskGet_of_mirrors`).
-/

namespace ScriptLoader.Cache

open Files FileSystem CodeCache

/-- The file that stands for what the memory holds under a URI. -/
def mirrored (memory : Memory) (uri : String) : Option Node :=
  (memory.lookup uri).map fun e => .file (Entry.bytes ⟨uri, e.1, e.2⟩)

/-- The directory at `loc` holds the code that the memory holds for these sources, and entries only. -/
structure Mirrors (among : Source → Prop) (loc : Location) (fs : FileSystem) (memory : Memory) : Prop where
  entries : ∀ s, among s → fs.node? (entryAt loc s) = mirrored memory s.uri
  children : ∀ n ∈ fs.children loc, ∃ s, n = Entry.fileName s ∧ Loose (fs.node? (entryAt loc s))

/-- No two of these sources have URIs with the same digest. -/
def Distinguished (among : Source → Prop) : Prop :=
  ∀ s t, among s → among t → Entry.fileName s = Entry.fileName t → s.uri = t.uri

/-! ## Requests to a mirror -/

section Requests

variable {among : Source → Prop} {fs fs' : FileSystem} {cwd loc : Location} {memory : Memory} {d : Path} {s : Source}

theorem mem_children_entry : Entry.fileName s ∈ fs.children loc ↔ fs.node? (entryAt loc s) ≠ none := by
  rw [mem_children_iff, entryAt, Option.isSome_iff_ne_none]

theorem Mirrors.loose (hm : Mirrors among loc fs memory) (s : Source) : Loose (fs.node? (entryAt loc s)) := by
  by_cases hnone : fs.node? (entryAt loc s) = none
  · exact hnone ▸ loose_none
  · obtain ⟨t, ht, hloose⟩ := hm.children _ (mem_children_entry.mpr hnone)
    rw [entryAt, ht]
    exact hloose

/-- A read from a mirror finds the file that stands for the memory. -/
theorem Mirrors.read (hm : Mirrors among loc fs memory) (hs : among s) (hleads : LeadsInto fs cwd d loc) {bs : Bytes}
    (hread : fs.read cwd (entryPath d s) = .ok bs) : mirrored memory s.uri = some (.file bs) := by
  obtain ⟨l, hl, hnode⟩ := read_eq_ok_iff.mp hread
  obtain ⟨loc', hleads', hend⟩ := locate_entry hl
  obtain rfl := hleads.unique hleads'
  obtain rfl := hend (.inr (hm.loose s).2)
  rw [← hm.entries s hs, hnode]

/-- The path of an entry leads to it, unless the system does not take the path. -/
theorem locate_entryAt (follow : Bool) (hleads : LeadsInto fs cwd d loc) (hloose : Loose (fs.node? (entryAt loc s))) :
    fs.locate follow cwd (entryPath d s) = .ok (entryAt loc s) ∨
      ∃ f, fs.locate follow cwd (entryPath d s) = .error f ∧ f ≠ .system .notFound := by
  by_cases hfits : (entryPath d s).Fits
  · exact .inl (locate_entryAt_of_fits follow hfits hleads hloose)
  · right
    have hne := locate_ne_notFound_of_not_fits fs cwd follow hfits
    cases hl : fs.locate follow cwd (entryPath d s) with
    | ok l => exact absurd (locate_eq_ok_iff.mp hl).1 hfits
    | error f => exact ⟨f, rfl, fun hf => hne (by rw [hl, hf])⟩

/-- Where a mirror says that there is nothing, the memory has nothing. -/
theorem Mirrors.missing (hm : Mirrors among loc fs memory) (hs : among s) (hleads : LeadsInto fs cwd d loc)
    (hread : fs.read cwd (entryPath d s) = .error (.system .notFound)) : mirrored memory s.uri = none := by
  rw [← hm.entries s hs]
  rcases locate_entryAt true hleads (hm.loose s) with hl | ⟨f, hl, hf⟩
  · rw [FileSystem.read, FileSystem.stat, hl] at hread
    cases hnode : fs.node? (entryAt loc s) with
    | none => rfl
    | some n => cases n <;> simp [Bind.bind, Except.bind, hnode] at hread
  · rw [FileSystem.read, FileSystem.stat, hl] at hread
    exact absurd (Except.error.inj hread) hf

/-- What is found in a mirror is what is remembered. -/
theorem diskGet_of_mirrors {h : Host} (hm : Mirrors among loc h.files memory) (hs : among s)
    (hleads : LeadsInto h.files h.cwd d loc)
    (hquiet : ∀ f, h.files.read h.cwd (entryPath d s) = .error f → f = .system .notFound) :
    ∃ found, diskGet h d s = .ok found ∧ found.code? = remembered memory s := by
  cases hread : h.files.read h.cwd (entryPath d s) with
  | error f =>
    obtain rfl := hquiet f hread
    have hnone := hm.missing hs hleads hread
    refine ⟨.nothing, by simp only [diskGet, hread], ?_⟩
    rw [mirrored, Option.map_eq_none_iff] at hnone
    simp [remembered, hnone, Found.code?]
  | ok bs =>
    obtain ⟨⟨fingerprint, code⟩, hlookup, hbytes⟩ := Option.map_eq_some_iff.mp (hm.read hs hleads hread)
    obtain rfl := Node.file.inj hbytes
    refine ⟨_, diskGet_of_read hread, ?_⟩
    simp only [remembered, hlookup, Entry.fits, beq_self_eq_true, Bool.true_and, beq_iff_eq]
    split <;> rfl

/-- Storing keeps the directory a mirror. -/
theorem Mirrors.store {code : String} (hm : Mirrors among loc fs memory) (hsha : Distinguished among) (hs : among s)
    (hholds : Holds fs (entryAt loc s) (Entry.ofSource s code).bytes fs') :
    Mirrors among loc fs' (remember memory s code) := by
  constructor
  · intro t ht
    rw [hholds, mirrored, lookup_remember]
    by_cases huri : t.uri = s.uri
    · rw [if_pos (by simp [entryAt, Entry.fileName, huri]), if_pos huri, huri, Option.map_some, Entry.ofSource]
    · have hne : entryAt loc t ≠ entryAt loc s := by
        intro heq
        exact huri (hsha t s ht hs (List.cons.inj (List.append_cancel_left heq)).1)
      rw [if_neg hne, if_neg huri]
      exact hm.entries t ht
  · intro n hn
    by_cases hname : n = Entry.fileName s
    · exact ⟨s, hname, hholds.node? ▸ loose_file _⟩
    · have hne : loc ++ [n] ≠ entryAt loc s := fun heq => hname (List.cons.inj (List.append_cancel_left heq)).1
      rw [mem_children_iff, hholds, if_neg hne, ← mem_children_iff] at hn
      obtain ⟨t, rfl, hloose⟩ := hm.children n hn
      rw [← entryAt] at hne
      exact ⟨t, rfl, by rw [hholds, if_neg hne]; exact hloose⟩

/-- Taking an entry away. -/
theorem unlink_entry (hleads : LeadsInto fs cwd d loc) (hloose : Loose (fs.node? (entryAt loc s))) :
    fs.unlink cwd (entryPath d s) = .ok (fs.remove (entryAt loc s)) ∨
      (fs.unlink cwd (entryPath d s) = .error (.system .notFound) ∧ fs.node? (entryAt loc s) = none) ∨
      ∃ f, fs.unlink cwd (entryPath d s) = .error f ∧ f ≠ .system .notFound := by
  rcases locate_entryAt false hleads hloose with hl | ⟨f, hl, hf⟩
  · cases hnode : fs.node? (entryAt loc s) with
    | none => exact .inr (.inl ⟨by simp [FileSystem.unlink, hl, hnode, Bind.bind, Except.bind], rfl⟩)
    | some n =>
      refine .inl (unlink_eq_ok_iff.mpr ⟨_, hl, by simp [hnode], hloose.1, rfl⟩)
  · exact .inr (.inr ⟨f, by simp [FileSystem.unlink, hl, Bind.bind, Except.bind], hf⟩)

theorem node?_remove_entry (fs : FileSystem) (loc x : Location) (s : Source) :
    (fs.remove (entryAt loc s)).node? x = if x = entryAt loc s then none else fs.node? x :=
  node?_remove (entryAt_ne_nil loc s) x

/-- When all of these entries have been taken away, none of them is there, and nothing else has changed. -/
theorem unlinkAll_entries {h : Host} {names : List String} (hleads : LeadsInto fs h.cwd d loc)
    (hnames : ∀ n ∈ names, ∃ s, n = Entry.fileName s ∧ Loose (fs.node? (entryAt loc s)))
    (hok : unlinkAll h d fs names = (fs', .ok ())) :
    ∀ x, fs'.node? x = if ∃ n ∈ names, x = loc ++ [n] then none else fs.node? x := by
  induction names generalizing fs with
  | nil =>
    obtain ⟨rfl, -⟩ := Prod.mk.inj hok
    simp
  | cons n names ih =>
    obtain ⟨s, rfl, hloose⟩ := hnames n List.mem_cons_self
    have hrest := fun n hn => hnames n (List.mem_cons_of_mem _ hn)
    rw [unlinkAll] at hok
    rw [show d.join (Path.ofText (Entry.fileName s)) = entryPath d s from rfl] at hok
    have hsplit (x : Location) : (∃ m ∈ Entry.fileName s :: names, x = loc ++ [m]) ↔
        x = entryAt loc s ∨ ∃ m ∈ names, x = loc ++ [m] := by simp [entryAt]
    rcases unlink_entry hleads hloose with hu | ⟨hu, hnone⟩ | ⟨f, hu, hf⟩
    · rw [hu] at hok
      have hremoved := node?_remove_entry fs loc
      have hways : SameWays fs (fs.remove (entryAt loc s)) := by
        intro x
        rw [hremoved]
        split
        · rename_i hx
          exact .inr ⟨hx ▸ hloose, loose_none⟩
        · exact .inl rfl
      have hloose' : ∀ n ∈ names, ∃ t, n = Entry.fileName t ∧ Loose ((fs.remove (entryAt loc s)).node? (entryAt loc t)) := by
        intro n hn
        obtain ⟨t, ht, hl⟩ := hrest n hn
        refine ⟨t, ht, ?_⟩
        rw [hremoved]
        split
        · exact loose_none
        · exact hl
      intro x
      rw [ih (hleads.of_keepsWays hways.keepsWays) hloose' hok x, hremoved]
      simp only [hsplit]
      by_cases hx : x = entryAt loc s <;> simp [hx]
    · rw [hu] at hok
      intro x
      rw [ih hleads hrest hok x]
      simp only [hsplit]
      by_cases hx : x = entryAt loc s
      · subst hx
        simp [hnone]
      · simp [hx]
    · rw [hu] at hok
      split at hok
      · simp_all
      · simp_all
      · simp at hok

/-- Clearing leaves the mirror of an empty memory. -/
theorem Mirrors.clear {h : Host} (hm : Mirrors among loc h.files memory) (hleads : LeadsInto h.files h.cwd d loc)
    (hok : diskClear h d = (fs', .ok ())) : Mirrors among loc fs' [] ∧ SameWays h.files fs' := by
  have hnames : diskNames h d = some (h.files.children loc) := by
    simp only [diskNames, hleads.1]
    simp [isDirectory_iff.mpr hleads.2]
  simp only [diskClear, hleads.1, hnames] at hok
  have hall : (h.files.children loc).filter (fun n => ".json".toList.isSuffixOf n.toList) = h.files.children loc := by
    refine List.filter_eq_self.mpr fun n hn => ?_
    obtain ⟨t, rfl, -⟩ := hm.children n hn
    rw [Entry.fileName, String.toList_append]
    exact List.isSuffixOf_iff_suffix.mpr (List.suffix_append ..)
  rw [hall] at hok
  have hgone := unlinkAll_entries hleads hm.children hok
  have hempty (n : String) : fs'.node? (loc ++ [n]) = none := by
    rw [hgone]
    split
    · rfl
    · rename_i hno
      have hn : n ∉ h.files.children loc := fun hn => hno ⟨n, hn, rfl⟩
      simpa [mem_children_iff] using hn
  refine ⟨⟨fun s _ => hempty _, fun n hn => ?_⟩, fun x => ?_⟩
  · simp [mem_children_iff, hempty] at hn
  · rw [hgone]
    split
    · rename_i hx
      obtain ⟨n, hn, rfl⟩ := hx
      obtain ⟨t, rfl, hloose⟩ := hm.children n hn
      exact .inr ⟨hloose, loose_none⟩
    · exact .inl rfl

end Requests

/-! ## Runs -/

/-- A request to a cache. -/
inductive Request where
  | get (s : Source)
  | put (s : Source) (code : String)
  | clear

/-- The source that a request is about. -/
def Request.source? : Request → Option Source
  | get s => some s
  | put s _ => some s
  | clear => none

/-- Makes a request; only a `get` is answered with something. -/
def Request.ask (c : CodeCache) : Request → Action (Option String)
  | get s => c.get? s
  | put s code => do
    c.put s code
    return none
  | clear => do
    c.clear
    return none

/-- The answers to requests that are made one after the other, each to the cache at a path. -/
def answers (cache : Path → CodeCache) (w : World) : List (Path × Request) → List (Except Failure (Option String))
  | [] => []
  | (d, r) :: rs =>
    let (a, w') := Action.exec (r.ask (cache d)) w
    a :: answers cache w' rs

/-- The system does what a request to the disk cache asks of it. That nothing is at the path of an entry is no failure. -/
def Request.Quiet (h : Host) (d : Path) : Request → Prop
  | get s => ∀ f, h.files.read h.cwd (entryPath d s) = .error f → f = .system .notFound
  | put s code => (diskPut h d s code).2 = .ok ()
  | clear => (diskClear h d).2 = .ok ()

/-- The system does all that a run of requests to disk caches asks of it. -/
def Undisturbed (w : World) : List (Path × Request) → Prop
  | [] => True
  | (d, r) :: rs => r.Quiet w.host d ∧ Undisturbed (Action.exec (r.ask (.disk d)) w).2 rs

/-- The paths are those of one directory, which is empty or missing: once one of them has been made, all of them lead to it. -/
def SharedDirectory (fs : FileSystem) (cwd : Location) (paths : List Path) (loc : Location) : Prop :=
  ∀ d ∈ paths, ∀ fs', fs.ensureDirectories cwd d = (fs', none) →
    fs'.children loc = [] ∧ ∀ d' ∈ paths, LeadsInto fs' cwd d' loc

/-- A disk cache and a memory side by side: the directory is as it was at the start and the memory is empty, or the directory has been
made and mirrors the memory. -/
structure Related (start : FileSystem) (cwd : Location) (paths : List Path) (among : Source → Prop) (loc : Location)
    (w m : World) : Prop where
  cwd_eq : w.host.cwd = cwd
  phase : (w.host.files = start ∧ m.memory = []) ∨
    (Mirrors among loc w.host.files m.memory ∧ ∀ d ∈ paths, LeadsInto w.host.files cwd d loc)

section Runs

variable {start fs : FileSystem} {cwd loc loc' : Location} {paths : List Path} {among : Source → Prop} {w m : World} {d : Path}
  {s : Source}

theorem ensureDirectories_of_leadsInto (h : LeadsInto fs cwd d loc) : fs.ensureDirectories cwd d = (fs, none) :=
  ensureDirectories_of_leadsToDirectory (leadsToDirectory_iff.mpr ⟨loc, h⟩)

theorem mirrors_of_empty (h : fs.children loc = []) : Mirrors among loc fs [] := by
  refine ⟨fun s _ => ?_, fun n hn => ?_⟩
  · have hn : Entry.fileName s ∉ fs.children loc := by simp [h]
    simpa [mem_children_entry, mirrored] using hn
  · simp [h] at hn

/-- Once the directory has been made by one of its paths, it mirrors the memory and all of its paths lead to it. -/
theorem Related.made (h : Related start cwd paths among loc w m) (hshared : SharedDirectory start cwd paths loc) (hd : d ∈ paths)
    (hmade : w.host.files.ensureDirectories cwd d = (fs, none)) :
    Mirrors among loc fs m.memory ∧ ∀ d' ∈ paths, LeadsInto fs cwd d' loc := by
  rcases h.phase with ⟨hstart, hempty⟩ | ⟨hm, hleads⟩
  · rw [hstart] at hmade
    obtain ⟨hchildren, hleads⟩ := hshared d hd fs hmade
    exact ⟨hempty ▸ mirrors_of_empty hchildren, hleads⟩
  · rw [ensureDirectories_of_leadsInto (hleads d hd)] at hmade
    obtain ⟨rfl, -⟩ := Prod.mk.inj hmade
    exact ⟨hm, hleads⟩

/-- Where one of the paths leads to a directory, that is the directory of the cache, and it mirrors the memory. -/
theorem Related.settled (h : Related start cwd paths among loc w m) (hshared : SharedDirectory start cwd paths loc) (hd : d ∈ paths)
    (hleads : LeadsInto w.host.files cwd d loc') :
    loc' = loc ∧ Mirrors among loc w.host.files m.memory ∧ ∀ d' ∈ paths, LeadsInto w.host.files cwd d' loc := by
  obtain ⟨hm, hall⟩ := h.made hshared hd (ensureDirectories_of_leadsInto hleads)
  exact ⟨hleads.unique (hall d hd), hm, hall⟩

/-- Where a path does not lead to a directory, nothing has been stored yet. -/
theorem Related.untouched (h : Related start cwd paths among loc w m) (hd : d ∈ paths)
    (hno : ∀ loc', ¬LeadsInto w.host.files cwd d loc') : w.host.files = start ∧ m.memory = [] := by
  rcases h.phase with hphase | ⟨-, hleads⟩
  · exact hphase
  · exact absurd (hleads d hd) (hno loc)

/-- A disk cache and a memory answer a request alike and stay side by side. -/
def Alike (start : FileSystem) (cwd : Location) (paths : List Path) (among : Source → Prop) (loc : Location) (w m : World) (d : Path)
    (r : Request) : Prop :=
  ∃ a w' m', Action.exec (r.ask (.disk d)) w = (.ok a, w') ∧ Action.exec (r.ask .memory) m = (.ok a, m') ∧
    Related start cwd paths among loc w' m'

theorem alike_get (h : Related start cwd paths among loc w m) (hshared : SharedDirectory start cwd paths loc) (hd : d ∈ paths)
    (hs : among s) (hquiet : (Request.get s).Quiet w.host d) : Alike start cwd paths among loc w m d (.get s) := by
  have hfound : ∃ found, diskGet w.host d s = .ok found ∧ found.code? = remembered m.memory s := by
    by_cases hleads : ∃ loc', LeadsInto w.host.files cwd d loc'
    · obtain ⟨loc', hleads⟩ := hleads
      obtain ⟨rfl, hm, -⟩ := h.settled hshared hd hleads
      exact diskGet_of_mirrors hm hs (h.cwd_eq ▸ hleads) hquiet
    · obtain ⟨-, hempty⟩ := h.untouched hd (not_exists.mp hleads)
      refine ⟨.nothing, ?_, by simp [hempty, remembered, Found.code?]⟩
      cases hread : w.host.files.read w.host.cwd (entryPath d s) with
      | error f =>
        obtain rfl := hquiet f hread
        simp only [diskGet, hread]
      | ok bs =>
        obtain ⟨l, hl, -⟩ := read_eq_ok_iff.mp hread
        obtain ⟨loc', hleads', -⟩ := locate_entry hl
        exact absurd ⟨loc', h.cwd_eq ▸ hleads'⟩ hleads
  obtain ⟨found, hget, hcode⟩ := hfound
  obtain ⟨w', hexec, hhost⟩ := exec_get_disk hget
  refine ⟨_, w', m, hexec, by simp [Request.ask, CodeCache.get?, Except.map, hcode], ?_⟩
  exact ⟨hhost ▸ h.cwd_eq, hhost ▸ h.phase⟩

theorem alike_put {code : String} (h : Related start cwd paths among loc w m) (hshared : SharedDirectory start cwd paths loc)
    (hd : d ∈ paths) (hsha : Distinguished among) (hs : among s) (hquiet : (Request.put s code).Quiet w.host d) :
    Alike start cwd paths among loc w m d (.put s code) := by
  have hresult := putResult_diskPut w.host d s code
  have hexec := exec_put_disk w d s code
  have hok : (diskPut w.host d s code).2 = .ok () := hquiet
  generalize diskPut w.host d s code = r at hresult hexec hok
  cases hresult with
  | refused => nomatch hok
  | @stored fs fs' loc' made leads free holds =>
    rw [h.cwd_eq] at made leads
    obtain ⟨hm, hall⟩ := h.made hshared hd made
    obtain rfl := leads.unique (hall d hd)
    have hways := (holds.sameWays (hm.loose s)).keepsWays
    refine ⟨none, { w with host := { w.host with files := fs' } }, { m with memory := remember m.memory s code }, ?_, ?_,
      h.cwd_eq, ?_⟩
    · simp only [Request.ask, Action.exec_bind, hexec]
      rfl
    · simp [Request.ask, CodeCache.put, Action.exec_bind, Except.map]
    · exact .inr ⟨hm.store hsha hs holds, fun d' hd' => (hall d' hd').of_keepsWays hways⟩

theorem diskNames_of_not_leadsInto {h : Host} (hno : ∀ loc', ¬LeadsInto h.files h.cwd d loc') : diskNames h d = none := by
  unfold diskNames
  split
  · rename_i loc' hl
    split
    · rename_i hdir
      exact absurd ⟨hl, isDirectory_iff.mp hdir⟩ (hno loc')
    · rfl
  · rfl

theorem alike_clear (h : Related start cwd paths among loc w m) (hshared : SharedDirectory start cwd paths loc) (hd : d ∈ paths)
    (hquiet : Request.clear.Quiet w.host d) : Alike start cwd paths among loc w m d .clear := by
  have hexec := exec_clear_disk w d
  have hok : (diskClear w.host d).2 = .ok () := hquiet
  have hmem : Action.exec (Request.clear.ask .memory) m = (.ok none, { m with memory := [] }) := by
    simp [Request.ask, CodeCache.clear, Action.exec_bind, Except.map]
  refine ⟨none, { w with host := { w.host with files := (diskClear w.host d).1 } }, _, ?_, hmem, h.cwd_eq, ?_⟩
  · simp only [Request.ask, Action.exec_bind, hexec, hok]
    rfl
  by_cases hleads : ∃ loc', LeadsInto w.host.files cwd d loc'
  · obtain ⟨loc', hleads⟩ := hleads
    obtain ⟨rfl, hm, hall⟩ := h.settled hshared hd hleads
    obtain ⟨hclear, hways⟩ := hm.clear (h.cwd_eq ▸ hleads) (Prod.ext rfl hok)
    exact .inr ⟨hclear, fun d' hd' => (hall d' hd').of_keepsWays hways.keepsWays⟩
  · obtain ⟨hstart, -⟩ := h.untouched hd (not_exists.mp hleads)
    have hnames := diskNames_of_not_leadsInto (h := w.host) (d := d) (h.cwd_eq ▸ not_exists.mp hleads)
    refine .inl ⟨?_, rfl⟩
    show (diskClear w.host d).1 = start
    unfold diskClear
    rw [hnames]
    split <;> exact hstart

theorem alike_of_related {r : Request} (h : Related start cwd paths among loc w m) (hshared : SharedDirectory start cwd paths loc)
    (hd : d ∈ paths) (hsha : Distinguished among) (hs : ∀ s, r.source? = some s → among s) (hquiet : r.Quiet w.host d) :
    Alike start cwd paths among loc w m d r := by
  cases r with
  | get s => exact alike_get h hshared hd (hs s rfl) hquiet
  | put s code => exact alike_put h hshared hd hsha (hs s rfl) hquiet
  | clear => exact alike_clear h hshared hd hquiet

/-- Side by side, a disk cache and a memory give the same answers to a run of requests. -/
theorem answers_of_related (hshared : SharedDirectory start cwd paths loc) (hsha : Distinguished among) (rs : List (Path × Request))
    (hpaths : ∀ r ∈ rs, r.1 ∈ paths) (hs : ∀ r ∈ rs, ∀ s, r.2.source? = some s → among s)
    (h : Related start cwd paths among loc w m) (hquiet : Undisturbed w rs) :
    answers .disk w rs = answers (fun _ => .memory) m rs := by
  induction rs generalizing w m with
  | nil => rfl
  | cons r rs ih =>
    obtain ⟨d, r⟩ := r
    obtain ⟨hnow, hlater⟩ := hquiet
    obtain ⟨a, w', m', hw, hm, hrel⟩ :=
      alike_of_related h hshared (hpaths _ List.mem_cons_self) hsha (hs _ List.mem_cons_self) hnow
    rw [hw] at hlater
    have hrest := ih (fun r hr => hpaths r (List.mem_cons_of_mem _ hr)) (fun r hr => hs r (List.mem_cons_of_mem _ hr)) hrel hlater
    simp only [answers, hw, hm, hrest]

/-- An entry that has been stored is read back, whatever the file of the entry held before. -/
theorem read_of_stored {h : Host} {code : String} {l : Location} (hl : h.files.locate false h.cwd (entryPath d s) = .ok l)
    (hloose : Loose (h.files.node? l)) (hok : (diskPut h d s code).2 = .ok ()) :
    ∃ fs, diskPut h d s code = (fs, .ok ()) ∧ fs.read h.cwd (entryPath d s) = .ok (Entry.ofSource s code).bytes := by
  have hresult := putResult_diskPut h d s code
  generalize diskPut h d s code = r at hresult hok
  cases hresult with
  | refused => nomatch hok
  | @stored fs fs' loc made leads free holds =>
    obtain ⟨loc', hleads, hend⟩ := locate_entry hl
    obtain rfl := hend (.inl rfl)
    rw [ensureDirectories_of_leadsInto hleads] at made
    obtain ⟨rfl, -⟩ := Prod.mk.inj made
    obtain rfl := leads.unique hleads
    have hleads' := hleads.of_keepsWays (holds.sameWays hloose).keepsWays
    have hloose' : Loose (fs'.node? (entryAt loc s)) := holds.node? ▸ loose_file _
    have hl' := locate_entryAt_of_fits true (locate_eq_ok_iff.mp hl).1 hleads' hloose'
    exact ⟨fs', rfl, read_eq_ok_iff.mpr ⟨_, hl', holds.node?⟩⟩

/-- Code that has been stored is found again. -/
theorem answers_put_get {code : String} {l : Location} (hl : w.host.files.locate false w.host.cwd (entryPath d s) = .ok l)
    (hloose : Loose (w.host.files.node? l)) (hquiet : (Request.put s code).Quiet w.host d) :
    answers .disk w [(d, .put s code), (d, .get s)] = [.ok none, .ok (some code)] := by
  obtain ⟨fs, hput, hread⟩ := read_of_stored hl hloose hquiet
  have hexec := exec_put_disk w d s code
  rw [hput] at hexec
  have hask : Action.exec ((Request.put s code).ask (.disk d)) w = (.ok none, { w with host := { w.host with files := fs } }) := by
    simp [Request.ask, hexec, Except.map]
  have hfound := diskGet_of_read (h := { w.host with files := fs }) hread
  rw [(Entry.fits_ofSource_iff s s code).mpr ⟨rfl, rfl⟩, if_pos rfl] at hfound
  obtain ⟨w', hget, -⟩ := exec_get_disk (w := { w with host := { w.host with files := fs } }) hfound
  have hget' : Action.exec ((Request.get s).ask (.disk d)) { w with host := { w.host with files := fs } } =
      (.ok (some code), w') := hget
  simp only [answers, hask, hget']

/-- A disk cache and a cache in memory are the same: from an empty or missing directory and an empty memory they give the same answers
to every run of requests that the system does not disturb, through whatever paths of the directory the requests are made. And
whatever a regular file at the path of an entry held before, code that is stored is found again. -/
theorem answers_disk_eq_memory :
    (∀ (w m : World) (rs : List (Path × Request)) (loc : Location),
      SharedDirectory w.host.files w.host.cwd (rs.map Prod.fst) loc → m.memory = [] → Undisturbed w rs →
      Distinguished (fun s => ∃ r ∈ rs, r.2.source? = some s) →
      answers .disk w rs = answers (fun _ => .memory) m rs) ∧
    ∀ (w : World) (d : Path) (s : Source) (code : String) (l : Location),
      w.host.files.locate false w.host.cwd (entryPath d s) = .ok l → Loose (w.host.files.node? l) →
      (Request.put s code).Quiet w.host d →
      answers .disk w [(d, .put s code), (d, .get s)] = [.ok none, .ok (some code)] := by
  refine ⟨fun w m rs loc hshared hempty hquiet hsha => ?_, fun w d s code l hl hloose hquiet => answers_put_get hl hloose hquiet⟩
  have hrelated : Related w.host.files w.host.cwd (rs.map Prod.fst) (fun s => ∃ r ∈ rs, r.2.source? = some s) loc w m :=
    ⟨rfl, .inl ⟨rfl, hempty⟩⟩
  exact answers_of_related hshared hsha rs (fun r hr => List.mem_map_of_mem hr) (fun r hr s hs => ⟨r, hr, hs⟩) hrelated hquiet

/-- A read from a mirror is not disturbed if the system takes the path. -/
theorem quiet_get_of_fits {h : Host} {memory : Memory} (hm : Mirrors among loc h.files memory) (hleads : LeadsInto h.files h.cwd d loc)
    (hfits : (entryPath d s).Fits) : (Request.get s).Quiet h d := by
  intro f hread
  rw [FileSystem.read, FileSystem.stat, locate_entryAt_of_fits true hfits hleads (hm.loose s)] at hread
  have hloose := hm.loose s
  cases hnode : h.files.node? (entryAt loc s) with
  | none =>
    simp only [Bind.bind, Except.bind, hnode] at hread
    exact (Except.error.inj hread).symm
  | some n =>
    rw [hnode] at hloose
    cases n with
    | file bs => simp [Bind.bind, Except.bind, hnode] at hread
    | directory => exact absurd rfl hloose.1
    | link target => exact absurd rfl (hloose.2 target)

end Runs

/-! ### One directory and two ways to it -/

/-- The directory `cache` below the root, seen from the root or from the working directory, which is the root too. -/
def cachePath (r : Root) : Path := ⟨r, ["cache"]⟩

theorem fits_cachePath (r : Root) : (cachePath r).Fits := ⟨by cases r <;> decide, by cases r <;> decide⟩

theorem locate_cachePath {nodes : List (Location × Node)} {follow : Bool} (r : Root)
    (hloose : ∀ target, (⟨nodes⟩ : FileSystem).node? ["cache"] ≠ some (.link target)) :
    (⟨nodes⟩ : FileSystem).locate follow [] (cachePath r) = .ok ["cache"] := by
  have hstart : (cachePath r).start [] = [] := by cases r <;> rfl
  refine locate_eq_ok_iff.mpr ⟨fits_cachePath r, ?_⟩
  rw [hstart]
  exact .one rfl ⟨by decide, by decide⟩ (by decide) (.inr hloose)

theorem leadsInto_cachePath (r : Root) : LeadsInto ⟨[(["cache"], .directory)]⟩ [] (cachePath r) ["cache"] :=
  ⟨locate_cachePath r (by simp [node?]), rfl⟩

theorem ensureDirectories_cachePath (r : Root) :
    (⟨[]⟩ : FileSystem).ensureDirectories [] (cachePath r) = (⟨[(["cache"], .directory)]⟩, none) := by
  have hmake : (⟨[]⟩ : FileSystem).makeDirectory [] (cachePath r) = .ok ⟨[(["cache"], .directory)]⟩ :=
    makeDirectory_eq_ok_iff.mpr ⟨_, locate_cachePath r (by simp [node?]), rfl, rfl⟩
  rw [ensureDirectories, hmake]

theorem fits_entryPath_cachePath (r : Root) (s : Source) : (entryPath (cachePath r) s).Fits := by
  rw [entryPath_eq]
  refine fits_snoc (fits_cachePath r) (Entry.not_mem_fileName (by decide) (by decide) s) ?_
  rw [Entry.utf8ByteSize_fileName]
  cases r <;> decide

theorem loose_entry_cachePath (s : Source) : Loose ((⟨[(["cache"], .directory)]⟩ : FileSystem).node? (entryAt ["cache"] s)) := by
  have hentry : (⟨[(["cache"], .directory)]⟩ : FileSystem).node? (entryAt ["cache"] s) = none := by
    simp [node?, entryAt]
  exact hentry ▸ loose_none

theorem quiet_put_cachePath (nodes : List (Location × Node))
    (hmade : (⟨nodes⟩ : FileSystem).ensureDirectories [] (cachePath .slash) = (⟨[(["cache"], .directory)]⟩, none)) (s : Source)
    (code : String) : (Request.put s code).Quiet (plainWorld nodes).host (cachePath .slash) := by
  have htemp : (temporaryAt (plainWorld nodes).host (cachePath .slash) ".0.tmp").Fits :=
    (⟨by decide, by decide⟩ : (⟨.slash, ["cache", ".0.tmp"]⟩ : Path).Fits)
  exact diskPut_ok (fun _ => rfl) hmade (leadsInto_cachePath .slash) (leadsInto_cachePath .slash)
    (fits_entryPath_cachePath .slash s) htemp (by decide) (loose_entry_cachePath s)

theorem answers_disk_eq_memory_quoted :
    let s : Source := ⟨"file:///a.ts", "let a: string;"⟩
    let w := plainWorld []
    let rs : List (Path × Request) := [(cachePath .slash, .put s "\x22\\\n"), (cachePath .relative, .get s)]
    answers .disk w rs = answers (fun _ => .memory) w rs ∧
      answers .disk (plainWorld [(["cache"], .directory)]) [(cachePath .slash, .put s "\x22\\\n"), (cachePath .slash, .get s)] =
        [.ok none, .ok (some "\x22\\\n")] := by
  intro s w rs
  have hput := quiet_put_cachePath [] (ensureDirectories_cachePath .slash) s "\x22\\\n"
  have hshared : SharedDirectory w.host.files w.host.cwd (rs.map Prod.fst) ["cache"] := by
    intro d hd fs hmade
    obtain ⟨r, rfl⟩ : ∃ r, d = cachePath r := by
      simp only [rs, List.map_cons, List.map_nil, List.mem_cons, List.not_mem_nil, or_false] at hd
      rcases hd with rfl | rfl <;> exact ⟨_, rfl⟩
    obtain rfl := (Prod.mk.inj ((ensureDirectories_cachePath r).symm.trans hmade)).1
    refine ⟨rfl, fun d' hd' => ?_⟩
    simp only [rs, List.map_cons, List.map_nil, List.mem_cons, List.not_mem_nil, or_false] at hd'
    rcases hd' with rfl | rfl <;> exact leadsInto_cachePath _
  have hsha : Distinguished fun t => ∃ r ∈ rs, r.2.source? = some t := by
    rintro t t' ⟨r, hr, ht⟩ ⟨r', hr', ht'⟩ -
    simp [rs] at hr hr'
    rcases hr with rfl | rfl <;> rcases hr' with rfl | rfl <;> simp_all [Request.source?]
  have hquiet : Undisturbed w rs := by
    refine ⟨hput, ?_, trivial⟩
    have hrelated : Related ⟨[]⟩ [] (rs.map Prod.fst) (fun t => ∃ r ∈ rs, r.2.source? = some t) ["cache"] w w :=
      ⟨rfl, .inl ⟨rfl, rfl⟩⟩
    obtain ⟨a, w', m', hw, hm, hrelated'⟩ := alike_put hrelated hshared (by simp [rs]) hsha ⟨_, List.mem_cons_self, rfl⟩ hput
    rw [hw]
    rcases hrelated'.phase with ⟨-, hempty⟩ | ⟨hmirrors, hleads⟩
    · have hstored : m' = { w with memory := remember [] s "\x22\\\n" } := by
        have := congrArg Prod.snd hm
        simpa [Request.ask, CodeCache.put, Action.exec_bind, w, plainWorld] using this.symm
      simp [hstored, remember] at hempty
    · refine quiet_get_of_fits hmirrors ?_ (fits_entryPath_cachePath .relative s)
      rw [hrelated'.cwd_eq]
      exact hleads _ (by simp [rs])
  refine ⟨answers_disk_eq_memory.1 w w rs _ hshared rfl hquiet hsha, ?_⟩
  have hl : (plainWorld [(["cache"], .directory)]).host.files.locate false [] (entryPath (cachePath .slash) s) =
      .ok (entryAt ["cache"] s) :=
    locate_entryAt_of_fits false (fits_entryPath_cachePath .slash s) (leadsInto_cachePath .slash) (loose_entry_cachePath s)
  have hmade := ensureDirectories_of_leadsInto (leadsInto_cachePath .slash)
  exact answers_disk_eq_memory.2 _ _ s _ _ hl (loose_entry_cachePath s) (quiet_put_cachePath _ hmade s _)

end ScriptLoader.Cache
