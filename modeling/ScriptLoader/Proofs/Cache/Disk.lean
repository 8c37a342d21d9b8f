import ScriptLoader.Cache.Disk
import ScriptLoader.Proofs.Cache.Entry
import ScriptLoader.Proofs.Files.Access

/-!
# What the disk cache does to the files

A write that succeeds leaves the entry in the directory of the cache and changes nothing else but directories that had to be made; a
write that fails leaves the entries as they were (`diskPut_cases`). A temporary file is never left behind.
-/

namespace ScriptLoader.Cache

open Files FileSystem

variable {fs fs' : FileSystem} {cwd loc : Location} {d : Path} {s : Source}

theorem plain_of_isName {n : String} (h : Path.IsName n) : Plain n := ⟨h.dot, h.parent⟩

/-- The location of the entry for a source in the directory at a location. -/
def entryAt (loc : Location) (s : Source) : Location := loc ++ [Entry.fileName s]

theorem entryPath_eq (d : Path) (s : Source) : entryPath d s = ⟨d.root, d.names ++ [Entry.fileName s]⟩ :=
  (Entry.isName_fileName s).join d

theorem entryAt_ne_nil (loc : Location) (s : Source) : entryAt loc s ≠ [] := append_ne_nil loc _

/-- The path of a cache leads to a directory. -/
def LeadsInto (fs : FileSystem) (cwd : Location) (d : Path) (loc : Location) : Prop :=
  fs.locate true cwd d = .ok loc ∧ fs.node? loc = some .directory

theorem LeadsInto.of_keepsWays (h : LeadsInto fs cwd d loc) (hways : KeepsWays fs fs') : LeadsInto fs' cwd d loc := by
  obtain ⟨hfits, hw⟩ := locate_eq_ok_iff.mp h.1
  exact ⟨locate_eq_ok_iff.mpr ⟨hfits, hw.of_keepsWays hways⟩, hways.directories _ h.2⟩

theorem LeadsInto.unique {loc' : Location} (h : LeadsInto fs cwd d loc) (h' : LeadsInto fs cwd d loc') : loc = loc' :=
  Except.ok.inj (h.1.symm.trans h'.1)

/-- What the path of an entry means. -/
theorem locate_entry {follow : Bool} {l : Location} (h : fs.locate follow cwd (entryPath d s) = .ok l) :
    ∃ loc, LeadsInto fs cwd d loc ∧
      ((follow = false ∨ ∀ target, fs.node? (entryAt loc s) ≠ some (.link target)) → l = entryAt loc s) := by
  rw [entryPath_eq] at h
  obtain ⟨loc, hloc, hdir, -, hl⟩ := locate_snoc (plain_of_isName (Entry.isName_fileName s)) h
  exact ⟨loc, ⟨hloc, hdir⟩, hl⟩

/-- The path of an entry leads to it. -/
theorem locate_entryAt_of_fits (follow : Bool) (hfits : (entryPath d s).Fits) (hleads : LeadsInto fs cwd d loc)
    (hloose : Loose (fs.node? (entryAt loc s))) : fs.locate follow cwd (entryPath d s) = .ok (entryAt loc s) := by
  rw [entryPath_eq] at hfits ⊢
  exact locate_of_snoc (plain_of_isName (Entry.isName_fileName s)) hfits hleads.1 hleads.2
    (by rw [Entry.utf8ByteSize_fileName]; decide) (.inr hloose.2)

/-! ## Temporary files -/

/-- The names that a temporary file may have. -/
def temporaryNames (fs : FileSystem) (loc : Location) : List String :=
  (List.range ((fs.children loc).length + 1)).map fun n => "." ++ toString n ++ ".tmp"

theorem temporary_inj {m n : Nat} (h : "." ++ toString m ++ ".tmp" = "." ++ toString n ++ ".tmp") : m = n := by
  have hlist := congrArg String.toList h
  simp only [String.toList_append, List.append_cancel_right_eq, List.append_cancel_left_eq] at hlist
  have hdigits : Nat.toDigits 10 m = Nat.toDigits 10 n := by
    simpa [Nat.toString_eq_ofList_toDigits] using hlist
  rw [← Nat.ofDigitChars_ten_toDigits (n := m), hdigits, Nat.ofDigitChars_ten_toDigits]

/-- There are more names than children, so one of them is free. -/
theorem exists_free (fs : FileSystem) (loc : Location) : ∃ n ∈ temporaryNames fs loc, n ∉ fs.children loc := by
  have hnodup : (temporaryNames fs loc).Nodup :=
    List.pairwise_map.mpr (List.nodup_range.imp fun hne heq => hne (temporary_inj heq))
  refine Classical.byContradiction fun hall => ?_
  have hsub : temporaryNames fs loc ⊆ fs.children loc := fun n hn =>
    Classical.byContradiction fun hfree => hall ⟨n, hn, hfree⟩
  have hle := hnodup.length_le_of_subset hsub
  simp only [temporaryNames, List.length_map, List.length_range] at hle
  exact Nat.not_succ_le_self _ hle

theorem temporaryName_free (fs : FileSystem) (loc : Location) :
    temporaryName fs loc ∈ temporaryNames fs loc ∧ temporaryName fs loc ∉ fs.children loc := by
  obtain ⟨n, hn, hfree⟩ := exists_free fs loc
  have hfind : ((temporaryNames fs loc).find? fun n => !(fs.children loc).contains n).isSome = true :=
    List.find?_isSome.mpr ⟨n, hn, by simpa using hfree⟩
  obtain ⟨m, hm⟩ := Option.isSome_iff_exists.mp hfind
  have heq : temporaryName fs loc = m := by
    show ((temporaryNames fs loc).find? fun n => !(fs.children loc).contains n).getD ".tmp" = m
    rw [hm]
    rfl
  rw [heq]
  exact ⟨List.mem_of_find?_eq_some hm, by simpa using List.find?_some hm⟩

theorem suffix_of_mem_temporaryNames {n : String} (h : n ∈ temporaryNames fs loc) : ∃ cs, n.toList = cs ++ ".tmp".toList := by
  obtain ⟨k, -, rfl⟩ := List.mem_map.mp h
  exact ⟨_, String.toList_append⟩

theorem plain_of_mem_temporaryNames {n : String} (h : n ∈ temporaryNames fs loc) : Plain n := by
  obtain ⟨cs, hcs⟩ := suffix_of_mem_temporaryNames h
  constructor <;>
    · rintro rfl
      have := congrArg List.length hcs
      simp at this

/-- A temporary file is no entry. -/
theorem fileName_ne_of_mem_temporaryNames {n : String} (h : n ∈ temporaryNames fs loc) (s : Source) : Entry.fileName s ≠ n := by
  rintro rfl
  obtain ⟨cs, hcs⟩ := suffix_of_mem_temporaryNames h
  have hlast := congrArg List.getLast? hcs
  simp [Entry.fileName] at hlast

/-- A file of our own in the directory at `loc`, under a name that was free. -/
structure Temporary (fs : FileSystem) (cwd : Location) (t : Path) (loc : Location) (n : String) : Prop where
  path : ∃ ns, t = ⟨.slash, ns ++ [n]⟩ ∧ fs.Walks true maxLinks [] ns loc
  directory : fs.node? loc = some .directory
  plain : Plain n
  free : fs.node? (loc ++ [n]) = none

/-- The path of a file in a directory as it is seen from the root. -/
def temporaryAt (h : Host) (d : Path) (n : String) : Path := ⟨.slash, (Path.absolute h.here d).names ++ [n]⟩

theorem start_absolute (h : Host) (d : Path) : (Path.absolute h.here d).start h.cwd = [] := by
  unfold Path.absolute Path.normalized Path.join Path.start
  split <;> simp_all [Path.isAbsolute, Host.here]

/-- A name that is free in the directory that the path of a cache leads to, as seen from the root. -/
theorem temporary_of_leadsInto {h : Host} (hleads : LeadsInto fs h.cwd (Path.absolute h.here d) loc) :
    Temporary fs h.cwd (temporaryAt h d (temporaryName fs loc)) loc (temporaryName fs loc) := by
  obtain ⟨hmem, hfree⟩ := temporaryName_free fs loc
  have hw := (locate_eq_ok_iff.mp hleads.1).2
  rw [start_absolute] at hw
  refine ⟨⟨_, rfl, hw⟩, hleads.2, plain_of_mem_temporaryNames hmem, ?_⟩
  rw [mem_children_iff] at hfree
  simpa using hfree

theorem temporaryPath_eq_ok_iff {h : Host} {t : Path} :
    temporaryPath h fs d = .ok t ↔
      ∃ loc, LeadsInto fs h.cwd (Path.absolute h.here d) loc ∧ t = temporaryAt h d (temporaryName fs loc) := by
  simp only [temporaryPath, bind_eq_ok_iff, LeadsInto, and_assoc]
  refine exists_congr fun loc => and_congr_right fun _ => ?_
  rw [← isDirectory_iff]
  cases fs.isDirectory loc with
  | false => simp
  | true => exact ⟨fun h => ⟨rfl, (Except.ok.inj h).symm⟩, fun h => congrArg Except.ok h.2.symm⟩

/-- The file system with a file at a location. -/
def Holds (fs : FileSystem) (l : Location) (bs : Bytes) (fs' : FileSystem) : Prop :=
  ∀ x, fs'.node? x = if x = l then some (.file bs) else fs.node? x

theorem holds_set {l : Location} (hl : l ≠ []) (bs : Bytes) : Holds fs l bs (fs.set l (.file bs)) := node?_set _ hl

theorem Holds.set {fs'' : FileSystem} {l : Location} {bs bs' : Bytes} (h : Holds fs l bs fs') (hl : l ≠ [])
    (hset : fs'' = fs'.set l (.file bs')) : Holds fs l bs' fs'' := by
  intro x
  rw [hset, node?_set _ hl, h x]
  split <;> rfl

theorem Holds.sameWays {l : Location} {bs : Bytes} (h : Holds fs l bs fs') (hloose : Loose (fs.node? l)) : SameWays fs fs' := by
  intro x
  rw [h x]
  split
  · rename_i hx
    exact .inr ⟨hx ▸ hloose, loose_file bs⟩
  · exact .inl rfl

theorem Holds.node? {l : Location} {bs : Bytes} (h : Holds fs l bs fs') : fs'.node? l = some (.file bs) := by
  rw [h l, if_pos rfl]

/-- Taking the file away again. -/
theorem Holds.remove {l x : Location} {bs : Bytes} (h : Holds fs l bs fs') (hl : l ≠ []) (hnone : fs.node? l = none) :
    (fs'.remove l).node? x = fs.node? x := by
  rw [node?_remove hl, h x]
  split
  · rename_i hx
    rw [hx, hnone]
  · rfl

namespace Temporary

variable {t : Path} {n : String}

/-- The path of a temporary file leads to it for as long as the ways are kept. -/
theorem locate (follow : Bool) (ht : Temporary fs cwd t loc n) (hfits : t.Fits) (hlen : n.utf8ByteSize ≤ maxName)
    (hways : KeepsWays fs fs') (hlink : ∀ target, fs'.node? (loc ++ [n]) ≠ some (.link target)) :
    fs'.locate follow cwd t = .ok (loc ++ [n]) := by
  obtain ⟨ns, rfl, hw⟩ := ht.path
  have hw' : fs'.Walks follow maxLinks [] (ns ++ [n]) (loc ++ [n]) :=
    (hw.of_keepsWays hways).snoc (hways.directories _ ht.directory) ht.plain hlen (.inr hlink)
  exact locate_eq_ok_iff.mpr ⟨hfits, hw'⟩

/-- A temporary file that has been made. -/
theorem created (ht : Temporary fs cwd t loc n) {bs : Bytes} (h : fs.write cwd t bs = .ok fs') :
    Holds fs (loc ++ [n]) bs fs' ∧ t.Fits ∧ n.utf8ByteSize ≤ maxName := by
  obtain ⟨l, hl, -, rfl⟩ := write_eq_ok_iff.mp h
  obtain ⟨ns, rfl, hw⟩ := ht.path
  obtain ⟨hfits, hlong⟩ := locate_eq_ok_iff.mp hl
  obtain ⟨loc', hw', -, hlen, hend⟩ := hlong.of_snoc ht.plain
  obtain rfl : loc = loc' := hw.unique hw'
  obtain rfl := hend (.inr (by simp [ht.free]))
  exact ⟨holds_set (append_ne_nil _ _) bs, hfits, hlen⟩

end Temporary

theorem attempt_eq_ok {h : Host} {step : WriteStep} {p : Path} {r : Except PathFault FileSystem}
    (hok : attempt h step p r = .ok fs) : r = .ok fs := by
  unfold attempt at hok
  split at hok
  · nomatch hok
  · exact mapError_eq_ok_iff.mp hok

/-- An entry that has been moved into place by way of a temporary file. -/
theorem holds_of_moved {h : Host} {t : Path} {n : String} {bs : Bytes} {opened : FileSystem} (ht : Temporary fs h.cwd t loc n)
    (hn : Entry.fileName s ≠ n) (hopened : fs.write h.cwd t [] = .ok opened) {written : FileSystem} {l : Location}
    (hwritten : opened.write h.cwd t bs = .ok written) (hl : written.locate false h.cwd t = .ok l)
    (hmoved : written.replace h.cwd l (entryPath d s) = .ok fs') :
    ∃ loc', LeadsInto fs h.cwd d loc' ∧ fs.node? (entryAt loc' s) ≠ some .directory ∧ Holds fs (entryAt loc' s) bs fs' := by
  have hne := append_ne_nil loc n
  obtain ⟨hopen, hfits, hlen⟩ := ht.created hopened
  have hloose : Loose (fs.node? (loc ++ [n])) := ht.free ▸ loose_none
  -- the second write finds the file that the first one made
  obtain ⟨l₁, hl₁, -, hset⟩ := write_eq_ok_iff.mp hwritten
  have hl₁' := ht.locate true hfits hlen (hopen.sameWays hloose).keepsWays (by simp [hopen.node?])
  obtain rfl : l₁ = loc ++ [n] := Except.ok.inj (hl₁.symm.trans hl₁')
  have hwrote : Holds fs (loc ++ [n]) bs written := hopen.set hne hset
  have hsame := hwrote.sameWays hloose
  have hl' := ht.locate false hfits hlen hsame.keepsWays (by simp [hwrote.node?])
  obtain rfl : l = loc ++ [n] := Except.ok.inj (hl.symm.trans hl')
  -- where the entry is moved to
  obtain ⟨l₂, hl₂, hdir, m, hm, rfl⟩ := replace_eq_ok_iff.mp hmoved
  obtain rfl : m = .file bs := Option.some.inj (hm.symm.trans hwrote.node?)
  obtain ⟨loc', hleads, hend⟩ := locate_entry hl₂
  obtain rfl := hend (.inl rfl)
  have hother : entryAt loc' s ≠ loc ++ [n] := fun heq => hn (List.cons.inj (List.append_inj' heq rfl).2).1
  refine ⟨loc', hleads.of_keepsWays hsame.symm.keepsWays, ?_, fun x => ?_⟩
  · rw [hwrote, if_neg hother] at hdir
    exact hdir
  · rw [node?_set _ (entryAt_ne_nil _ _), hwrote.remove hne ht.free]

/-- What comes of moving an entry in by way of a temporary file: the entry is there, or the files are as before. -/
theorem moveIn_cases {h : Host} {t : Path} {n : String} (d : Path) (bs : Bytes) (ht : Temporary fs h.cwd t loc n)
    (hn : Entry.fileName s ≠ n) :
    ((∃ f, (moveIn h fs t (entryPath d s) bs).2 = .error f) ∧ ∀ x, (moveIn h fs t (entryPath d s) bs).1.node? x = fs.node? x) ∨
      ((moveIn h fs t (entryPath d s) bs).2 = .ok () ∧ ∃ loc', LeadsInto fs h.cwd d loc' ∧
        fs.node? (entryAt loc' s) ≠ some .directory ∧ Holds fs (entryAt loc' s) bs (moveIn h fs t (entryPath d s) bs).1) := by
  unfold moveIn
  split
  · exact .inl ⟨⟨_, rfl⟩, fun _ => rfl⟩
  · rename_i opened hattempt
    have hopened := attempt_eq_ok hattempt
    simp only
    split
    · rename_i fs'' hmoved
      obtain ⟨written, hwritten, l, hl, hreplace⟩ := by simpa only [bind_eq_ok_iff] using hmoved
      exact .inr ⟨rfl, holds_of_moved ht hn hopened (attempt_eq_ok hwritten) (mapError_eq_ok_iff.mp hl)
        (attempt_eq_ok hreplace)⟩
    · -- the temporary file is taken away again
      obtain ⟨hopen, hfits, hlen⟩ := ht.created hopened
      have hloose : Loose (fs.node? (loc ++ [n])) := ht.free ▸ loose_none
      have hl := ht.locate false hfits hlen (hopen.sameWays hloose).keepsWays (by simp [hopen.node?])
      have hunlink : opened.unlink h.cwd t = .ok (opened.remove (loc ++ [n])) :=
        unlink_eq_ok_iff.mpr ⟨_, hl, by simp [hopen.node?], by simp [hopen.node?], rfl⟩
      rw [hunlink]
      exact .inl ⟨⟨_, rfl⟩, fun x => hopen.remove (append_ne_nil _ _) ht.free⟩

/-! ## Writes, reads and clearing -/

/-- What comes of a write: the entry is there, or nothing but directories has been made. -/
inductive PutResult (h : Host) (d : Path) (s : Source) (code : String) : FileSystem × Except Failure Unit → Prop where
  | stored {fs fs' : FileSystem} {loc : Location} (made : h.files.ensureDirectories h.cwd d = (fs, none))
      (leads : LeadsInto fs h.cwd d loc) (free : fs.node? (entryAt loc s) ≠ some .directory)
      (holds : Holds fs (entryAt loc s) (Entry.ofSource s code).bytes fs') : PutResult h d s code (fs', .ok ())
  | refused {fs fs' : FileSystem} {f : Failure} (made : fs = h.files ∨ fs = (h.files.ensureDirectories h.cwd d).1)
      (same : ∀ x, fs'.node? x = fs.node? x) : PutResult h d s code (fs', .error f)

theorem prepare_cases (h : Host) (d p : Path) :
    (∃ f, prepare h d p = (h.files, .error f)) ∨ (∃ f, prepare h d p = ((h.files.ensureDirectories h.cwd d).1, .error f)) ∨
      ∃ fs, h.files.ensureDirectories h.cwd d = (fs, none) ∧ prepare h d p = (fs, .ok ()) := by
  unfold prepare
  split
  · exact .inl ⟨_, rfl⟩
  · split
    · rename_i fs hmade
      exact .inr (.inr ⟨fs, hmade, rfl⟩)
    · rename_i fs f hmade
      exact .inr (.inl ⟨_, by rw [hmade]⟩)

theorem putResult_diskPut (h : Host) (d : Path) (s : Source) (code : String) : PutResult h d s code (diskPut h d s code) := by
  rcases prepare_cases h d (entryPath d s) with ⟨f, hp⟩ | ⟨f, hp⟩ | ⟨fs, hmade, hp⟩
  · simp only [diskPut, hp]
    exact .refused (.inl rfl) fun _ => rfl
  · simp only [diskPut, hp]
    exact .refused (.inr rfl) fun _ => rfl
  · have hlast : (h.files.ensureDirectories h.cwd d).1 = fs := by rw [hmade]
    simp only [diskPut, hp]
    split
    · exact .refused (.inr hlast.symm) fun _ => rfl
    · rename_i t ht
      obtain ⟨loc, hleads, rfl⟩ := temporaryPath_eq_ok_iff.mp ht
      have htemp := temporary_of_leadsInto hleads
      have hn := fileName_ne_of_mem_temporaryNames (temporaryName_free fs loc).1 s
      have hcases := moveIn_cases d (Entry.ofSource s code).bytes htemp hn
      generalize moveIn h fs _ (entryPath d s) (Entry.ofSource s code).bytes = r at hcases ⊢
      obtain ⟨fs', r⟩ := r
      rcases hcases with ⟨⟨f, hf⟩, hsame⟩ | ⟨hok, loc', hleads, hfree, hholds⟩
      · obtain rfl : r = .error f := hf
        exact .refused (.inr hlast.symm) hsame
      · obtain rfl : r = .ok () := hok
        exact .stored hmade hleads hfree hholds

theorem attempt_ok {h : Host} {step : WriteStep} {p : Path} (htrouble : h.trouble step = none) :
    attempt h step p (.ok fs) = .ok fs := by
  simp [attempt, htrouble]

/-- A write succeeds when the system has no trouble with it: the directory can be made, the paths are not too long, and there is no
directory in the place of the entry. -/
theorem diskPut_ok {h : Host} {loc' : Location} {code : String} (htrouble : ∀ step, h.trouble step = none)
    (hmade : h.files.ensureDirectories h.cwd d = (fs, none)) (hleads : LeadsInto fs h.cwd d loc)
    (habs : LeadsInto fs h.cwd (Path.absolute h.here d) loc') (hfits : (entryPath d s).Fits)
    (htemp : (temporaryAt h d (temporaryName fs loc')).Fits) (hlen : (temporaryName fs loc').utf8ByteSize ≤ maxName)
    (hloose : Loose (fs.node? (entryAt loc s))) : (diskPut h d s code).2 = .ok () := by
  have ht := temporary_of_leadsInto habs
  have hpath := temporaryPath_eq_ok_iff.mpr ⟨loc', habs, rfl⟩
  have hn := fileName_ne_of_mem_temporaryNames (temporaryName_free fs loc').1 s
  generalize temporaryAt h d (temporaryName fs loc') = t at ht htemp hpath
  generalize temporaryName fs loc' = n at ht hlen hn
  have hne := append_ne_nil loc' n
  have hfree : Loose (fs.node? (loc' ++ [n])) := ht.free ▸ loose_none
  -- the temporary file is made and written
  let opened := fs.set (loc' ++ [n]) (.file [])
  let written := opened.set (loc' ++ [n]) (.file (Entry.ofSource s code).bytes)
  have hopen : Holds fs (loc' ++ [n]) [] opened := holds_set hne []
  have hwrote : Holds fs (loc' ++ [n]) (Entry.ofSource s code).bytes written := hopen.set hne rfl
  have hways := (hwrote.sameWays hfree).keepsWays
  have hl₁ := ht.locate true htemp hlen (.refl fs) (by simp [ht.free])
  have hl₂ := ht.locate true htemp hlen (hopen.sameWays hfree).keepsWays (by simp [hopen.node?])
  have hl₃ := ht.locate false htemp hlen hways (by simp [hwrote.node?])
  have hwrite₁ : fs.write h.cwd t [] = .ok opened := write_eq_ok_iff.mpr ⟨_, hl₁, by simp [ht.free], rfl⟩
  have hwrite₂ : opened.write h.cwd t (Entry.ofSource s code).bytes = .ok written :=
    write_eq_ok_iff.mpr ⟨_, hl₂, by simp [hopen.node?], rfl⟩
  -- and moved into place
  have hother : entryAt loc s ≠ loc' ++ [n] := fun heq => hn (List.cons.inj (List.append_inj' heq rfl).2).1
  have hentry : Loose (written.node? (entryAt loc s)) := by
    rw [hwrote, if_neg hother]
    exact hloose
  have hl₄ := locate_entryAt_of_fits false hfits (hleads.of_keepsWays hways) hentry
  have hreplace := replace_eq_ok_iff.mpr ⟨_, hl₄, hentry.1, _, hwrote.node?, rfl⟩
  have hprepare : prepare h d (entryPath d s) = (fs, .ok ()) := by simp only [prepare, htrouble, hmade]
  simp only [diskPut, hprepare, hpath, moveIn, hwrite₁, attempt_ok (htrouble _), hwrite₂, hl₃, hreplace, mapError_ok,
    Bind.bind, Except.bind]

/-- A directory that has been made for a write stays, whatever becomes of the write. -/
theorem directory_of_diskPut {h : Host} {l : Location} (htrouble : h.trouble .makeDirectory = none)
    (hmade : h.files.ensureDirectories h.cwd d = (fs, none)) (hdir : fs.node? l = some .directory) (s : Source) (code : String) :
    (diskPut h d s code).1.node? l = some .directory := by
  have hprepare : prepare h d (entryPath d s) = (fs, .ok ()) := by simp only [prepare, htrouble, hmade]
  simp only [diskPut, hprepare]
  split
  · exact hdir
  · rename_i t ht
    obtain ⟨loc, hleads, rfl⟩ := temporaryPath_eq_ok_iff.mp ht
    have hn := fileName_ne_of_mem_temporaryNames (temporaryName_free fs loc).1 s
    rcases moveIn_cases d (Entry.ofSource s code).bytes (temporary_of_leadsInto hleads) hn with ⟨-, hsame⟩ | ⟨-, loc', -, hfree, hholds⟩
    · rw [hsame, hdir]
    · have hother : l ≠ entryAt loc' s := by
        rintro rfl
        exact hfree hdir
      rw [hholds, if_neg hother, hdir]

/-- Code that is found comes from an entry for the source. -/
theorem read_of_diskGet {h : Host} {code : String} (hget : diskGet h d s = .ok (.code code)) :
    ∃ bs e, h.files.read h.cwd (entryPath d s) = .ok bs ∧ Entry.ofBytes? bs = some e ∧ e.fits s = true ∧ e.code = code := by
  simp only [diskGet] at hget
  split at hget
  · simp at hget
  · simp at hget
  · rename_i bs hread
    split at hget
    · nomatch hget
    · rename_i e he
      have hfound := Except.ok.inj hget
      split at hfound
      · rename_i hfits
        exact ⟨bs, e, hread, he, hfits, Found.code.inj hfound⟩
      · nomatch hfound

/-- What is found where an entry stands. -/
theorem diskGet_of_read {h : Host} {e : Entry} (hread : h.files.read h.cwd (entryPath d s) = .ok e.bytes) :
    diskGet h d s = .ok (if e.fits s then .code e.code else .stale) := by
  simp only [diskGet, hread, Entry.ofBytes?_bytes]

/-- Code that has been put into the cache is found there, if no link stands in its place. -/
theorem diskGet_of_diskPut {h : Host} {code : String}
    (hplain : ∀ loc target, h.files.Leads (d.start h.cwd) d.names loc → h.files.node? (entryAt loc s) ≠ some (.link target))
    (hfits : (entryPath d s).Fits) (hok : (diskPut h d s code).2 = .ok ()) :
    diskGet { h with files := (diskPut h d s code).1 } d s = .ok (.code code) := by
  have hresult := putResult_diskPut h d s code
  generalize diskPut h d s code = r at hresult hok
  cases hresult with
  | refused => cases hok
  | @stored fs fs' loc made leads free holds =>
    have hgrows := grows_ensureDirectories h.files h.cwd d
    rw [made] at hgrows
    have hloc := (locate_eq_ok_iff.mp leads.1).2.leads.of_sameLinks hgrows.keepsWays.links.symm
    have hloose : Loose (fs.node? (entryAt loc s)) :=
      ⟨free, fun target hlink => hplain loc target hloc ((hgrows.keepsWays.links _ _).mpr hlink)⟩
    have hleads := leads.of_keepsWays (holds.sameWays hloose).keepsWays
    have hl := locate_entryAt_of_fits true hfits hleads (holds.node? ▸ loose_file _)
    rw [diskGet_of_read (h := { h with files := fs' }) (e := .ofSource s code) (read_eq_ok_iff.mpr ⟨_, hl, holds.node?⟩)]
    simp [Entry.fits, Entry.ofSource]

end ScriptLoader.Cache
