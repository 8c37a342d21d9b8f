import ScriptLoader.Files.Access
import ScriptLoader.Proofs.Files.Walk
import ScriptLoader.Proofs.Path
import ScriptLoader.Proofs.Results

/-!
# What operations on files do

The operations by what they find and what they leave at each location. Making directories puts directories where nothing was
(`grows_ensureDirectories`) and ends with one at the path (`leadsToDirectory_of_ensureDirectories`), and it does nothing where there
is one already.
-/

namespace ScriptLoader

namespace Path

/-- A path that the system takes: it holds no NUL and is not too long. -/
structure Fits (p : Path) : Prop where
  nul : p.names.any (·.toList.contains '\x00') = false
  length : p.text.utf8ByteSize ≤ Files.maxPath

/-- Where the names of a path are read from. -/
def start (p : Path) (cwd : Files.Location) : Files.Location := if p.isAbsolute then [] else cwd

end Path

namespace Files.FileSystem

variable {fs fs' : FileSystem} {follow : Bool} {cwd l : Location} {p : Path} {n : Node}

theorem locate_eq_ok_iff :
    fs.locate follow cwd p = .ok l ↔ p.Fits ∧ fs.Walks follow maxLinks (p.start cwd) p.names l := by
  rw [← walk_eq_ok_iff, locate, Path.start]
  constructor
  · intro h
    split at h
    · nomatch h
    split at h
    · nomatch h
    rename_i hnul hlen
    exact ⟨⟨by simpa using hnul, Nat.not_lt.mp hlen⟩, mapError_eq_ok_iff.mp h⟩
  · rintro ⟨hfits, h⟩
    rw [hfits.nul, if_neg Bool.false_ne_true, if_neg (Nat.not_lt.mpr hfits.length), h]
    rfl

theorem stat_eq_ok_iff : fs.stat cwd p = .ok n ↔ ∃ l, fs.locate true cwd p = .ok l ∧ fs.node? l = some n := by
  simp only [stat, bind_eq_ok_iff]
  refine exists_congr fun l => and_congr_right fun _ => ?_
  cases fs.node? l <;> simp

theorem leadsToDirectory_iff :
    fs.leadsToDirectory cwd p = true ↔ ∃ l, fs.locate true cwd p = .ok l ∧ fs.node? l = some .directory := by
  rw [← stat_eq_ok_iff, leadsToDirectory]
  split <;> simp_all

theorem read_eq_ok_iff {bs : Bytes} :
    fs.read cwd p = .ok bs ↔ ∃ l, fs.locate true cwd p = .ok l ∧ fs.node? l = some (.file bs) := by
  rw [← stat_eq_ok_iff, read, bind_eq_ok_iff]
  constructor
  · rintro ⟨n, hn, h⟩
    cases n <;> simp_all
  · intro h
    exact ⟨_, h, rfl⟩

theorem fits_of_snoc {r : Root} {ns : List String} {m : String} (h : Path.Fits ⟨r, ns ++ [m]⟩) : Path.Fits ⟨r, ns⟩ := by
  have hnul := h.nul
  have hlen := h.length
  rw [List.any_append, Bool.or_eq_false_iff] at hnul
  rw [Path.utf8ByteSize_text] at hlen
  refine ⟨hnul.1, ?_⟩
  rw [Path.utf8ByteSize_text]
  rcases Text.utf8ByteSize_joinFields_snoc ns m with hsize | hsize <;> omega

/-- The system takes a path with one more name if there is room for it. -/
theorem fits_snoc {r : Root} {ns : List String} {m : String} (h : Path.Fits ⟨r, ns⟩) (hm : '\x00' ∉ m.toList)
    (hroom : (⟨r, ns⟩ : Path).text.utf8ByteSize + (1 + m.utf8ByteSize) ≤ maxPath) : Path.Fits ⟨r, ns ++ [m]⟩ := by
  refine ⟨?_, ?_⟩
  · rw [List.any_append, h.nul]
    simpa using hm
  · rw [Path.utf8ByteSize_text] at hroom ⊢
    rcases Text.utf8ByteSize_joinFields_snoc ns m with hsize | hsize <;> omega

/-- Where a name behind a directory is found, the directory is found first. -/
theorem locate_snoc {r : Root} {ns : List String} {m : String} (hm : Plain m)
    (h : fs.locate follow cwd ⟨r, ns ++ [m]⟩ = .ok l) :
    ∃ d, fs.locate true cwd ⟨r, ns⟩ = .ok d ∧ fs.node? d = some .directory ∧ m.utf8ByteSize ≤ maxName ∧
      ((follow = false ∨ ∀ target, fs.node? (d ++ [m]) ≠ some (.link target)) → l = d ++ [m]) := by
  obtain ⟨hfits, hw⟩ := locate_eq_ok_iff.mp h
  obtain ⟨d, hd, hdir, hlen, hend⟩ := hw.of_snoc hm
  exact ⟨d, locate_eq_ok_iff.mpr ⟨fits_of_snoc hfits, hd⟩, hdir, hlen, hend⟩

/-- A name in a directory that a path leads to is found, if the system takes the longer path. -/
theorem locate_of_snoc {r : Root} {ns : List String} {m : String} {d : Location} (hm : Plain m)
    (hfits : Path.Fits ⟨r, ns ++ [m]⟩) (hd : fs.locate true cwd ⟨r, ns⟩ = .ok d) (hdir : fs.node? d = some .directory)
    (hlen : m.utf8ByteSize ≤ maxName) (hlink : follow = false ∨ ∀ target, fs.node? (d ++ [m]) ≠ some (.link target)) :
    fs.locate follow cwd ⟨r, ns ++ [m]⟩ = .ok (d ++ [m]) :=
  locate_eq_ok_iff.mpr ⟨hfits, (locate_eq_ok_iff.mp hd).2.snoc hdir hm hlen hlink⟩

theorem locate_of_keepsWays (h : fs.locate follow cwd p = .ok l) (hways : KeepsWays fs fs') : fs'.locate follow cwd p = .ok l := by
  obtain ⟨hfits, hw⟩ := locate_eq_ok_iff.mp h
  exact locate_eq_ok_iff.mpr ⟨hfits, hw.of_keepsWays hways⟩

/-- The system refuses a path that it does not take for other reasons than that nothing is there. -/
theorem locate_ne_notFound_of_not_fits (fs : FileSystem) (cwd : Location) (follow : Bool) {p : Path} (h : ¬p.Fits) :
    fs.locate follow cwd p ≠ .error (.system .notFound) := by
  unfold locate
  split
  · simp
  · split
    · simp
    · rename_i hnul hlen
      exact absurd ⟨by simpa using hnul, Nat.not_lt.mp hlen⟩ h

/-! ## Files -/

theorem write_eq_ok_iff {bs : Bytes} :
    fs.write cwd p bs = .ok fs' ↔
      ∃ l, fs.locate true cwd p = .ok l ∧ fs.node? l ≠ some .directory ∧ fs' = fs.set l (.file bs) := by
  simp only [write, bind_eq_ok_iff]
  refine exists_congr fun l => and_congr_right fun _ => ?_
  cases fs.node? l with
  | none => simp [eq_comm]
  | some n => cases n <;> simp [eq_comm]

theorem unlink_eq_ok_iff :
    fs.unlink cwd p = .ok fs' ↔
      ∃ l, fs.locate false cwd p = .ok l ∧ fs.node? l ≠ none ∧ fs.node? l ≠ some .directory ∧ fs' = fs.remove l := by
  simp only [unlink, bind_eq_ok_iff]
  refine exists_congr fun l => and_congr_right fun _ => ?_
  cases fs.node? l with
  | none => simp
  | some n => cases n <;> simp [eq_comm]

theorem replace_eq_ok_iff {source : Location} :
    fs.replace cwd source p = .ok fs' ↔
      ∃ l, fs.locate false cwd p = .ok l ∧ fs.node? l ≠ some .directory ∧ ∃ n, fs.node? source = some n ∧
        fs' = (fs.remove source).set l n := by
  simp only [replace, bind_eq_ok_iff]
  refine exists_congr fun l => and_congr_right fun _ => ?_
  cases fs.node? l with
  | none => cases fs.node? source <;> simp [eq_comm]
  | some n => cases n <;> cases fs.node? source <;> simp [eq_comm]

/-! ## Making directories -/

/-- Directories have been made where nothing was, and nothing else has changed. -/
def Grows (fs fs' : FileSystem) : Prop :=
  ∀ l, fs'.node? l = fs.node? l ∨ (fs.node? l = none ∧ fs'.node? l = some .directory)

theorem Grows.refl (fs : FileSystem) : Grows fs fs := fun _ => .inl rfl

theorem Grows.trans {fs'' : FileSystem} (h : Grows fs fs') (h' : Grows fs' fs'') : Grows fs fs'' := by
  intro l
  rcases h l with hl | ⟨hnone, hdir⟩
  · rw [← hl]
    exact h' l
  · rcases h' l with hl' | ⟨hnone', -⟩
    · exact .inr ⟨hnone, hl'.trans hdir⟩
    · exact absurd (hnone'.symm.trans hdir) (by simp)

theorem Grows.keepsWays (h : Grows fs fs') : KeepsWays fs fs' := by
  refine ⟨fun l hdir => ?_, fun l target => ?_⟩
  · rcases h l with hl | ⟨hnone, -⟩
    · exact hl.trans hdir
    · exact absurd (hnone.symm.trans hdir) (by simp)
  · rcases h l with hl | ⟨hnone, hdir⟩
    · rw [hl]
    · simp [hnone, hdir]

/-- Something new at a location where nothing was. -/
theorem node?_set_of_none (h : fs.node? l = none) (n : Node) (l' : Location) :
    (fs.set l n).node? l' = if l' = l then some n else fs.node? l' := by
  refine node?_set n ?_ l'
  rintro rfl
  simp [node?] at h

theorem grows_set (h : fs.node? l = none) : Grows fs (fs.set l .directory) := by
  intro l'
  rw [node?_set_of_none h]
  split
  · rename_i hl
    exact .inr ⟨hl ▸ h, rfl⟩
  · exact .inl rfl

theorem makeDirectory_eq_ok_iff :
    fs.makeDirectory cwd p = .ok fs' ↔
      ∃ l, fs.locate false cwd p = .ok l ∧ fs.node? l = none ∧ fs' = fs.set l .directory := by
  simp only [makeDirectory, bind_eq_ok_iff]
  refine exists_congr fun l => and_congr_right fun _ => ?_
  cases fs.node? l <;> simp [eq_comm]

theorem grows_makeDirectory (h : fs.makeDirectory cwd p = .ok fs') : Grows fs fs' := by
  obtain ⟨l, -, hnone, rfl⟩ := makeDirectory_eq_ok_iff.mp h
  exact grows_set hnone

theorem leadsToDirectory_of_makeDirectory (h : fs.makeDirectory cwd p = .ok fs') : fs'.leadsToDirectory cwd p = true := by
  obtain ⟨l, hl, hnone, rfl⟩ := makeDirectory_eq_ok_iff.mp h
  obtain ⟨hfits, hw⟩ := locate_eq_ok_iff.mp hl
  have hw' := (hw.followed (by simp [hnone])).of_keepsWays (grows_set hnone).keepsWays
  refine leadsToDirectory_iff.mpr ⟨l, locate_eq_ok_iff.mpr ⟨hfits, hw'⟩, ?_⟩
  rw [node?_set_of_none hnone, if_pos rfl]

theorem grows_ensureDirectory (h : fs.ensureDirectory cwd p = .ok fs') : Grows fs fs' := by
  rw [ensureDirectory] at h
  split at h
  · rename_i hmake
    rw [← Except.ok.inj h]
    exact grows_makeDirectory hmake
  · split at h
    · rw [← Except.ok.inj h]
      exact .refl fs
    · cases h

theorem leadsToDirectory_of_ensureDirectory (h : fs.ensureDirectory cwd p = .ok fs') :
    fs'.leadsToDirectory cwd p = true := by
  rw [ensureDirectory] at h
  split at h
  · rename_i hmake
    rw [← Except.ok.inj h]
    exact leadsToDirectory_of_makeDirectory hmake
  · split at h
    · rename_i hdir
      rw [← Except.ok.inj h]
      exact hdir
    · cases h

theorem grows_ensureDirectories (fs : FileSystem) (cwd : Location) (p : Path) : Grows fs (fs.ensureDirectories cwd p).1 := by
  fun_induction ensureDirectories fs cwd p with
  | case1 _ _ hmake => exact grows_makeDirectory hmake
  | case2 => exact .refl fs
  | case3 _ _ _ _ _ habove ih =>
    rw [habove] at ih
    exact ih
  | case4 _ _ _ _ habove _ hself ih =>
    rw [habove] at ih
    exact ih.trans (grows_ensureDirectory hself)
  | case5 _ _ _ _ habove _ _ ih =>
    rw [habove] at ih
    exact ih
  | case6 => exact .refl fs

/-- When all directories of a path have been made, it leads to one. -/
theorem leadsToDirectory_of_ensureDirectories (h : fs.ensureDirectories cwd p = (fs', none)) :
    fs'.leadsToDirectory cwd p = true := by
  rw [ensureDirectories] at h
  split at h
  · rename_i hmake
    obtain ⟨rfl, -⟩ := Prod.mk.inj h
    exact leadsToDirectory_of_makeDirectory hmake
  · split at h
    · exact absurd (congrArg Prod.snd h) (by simp)
    · split at h
      · exact absurd (congrArg Prod.snd h) (by simp)
      · split at h
        · rename_i hself
          obtain ⟨rfl, -⟩ := Prod.mk.inj h
          exact leadsToDirectory_of_ensureDirectory hself
        · exact absurd (congrArg Prod.snd h) (by simp)
  · obtain ⟨rfl, hnone⟩ := Prod.mk.inj h
    by_cases hdir : fs.leadsToDirectory cwd p = true
    · exact hdir
    · simp [hdir] at hnone

/-- Where a path leads to a directory, nothing has to be made. -/
theorem ensureDirectories_of_leadsToDirectory (h : fs.leadsToDirectory cwd p = true) :
    fs.ensureDirectories cwd p = (fs, none) := by
  obtain ⟨l, hl, hdir⟩ := leadsToDirectory_iff.mp h
  obtain ⟨hfits, hw⟩ := locate_eq_ok_iff.mp hl
  obtain ⟨l', hw', hsome⟩ := hw.unfollowed (by simp [hdir])
  have hmake : fs.makeDirectory cwd p = .error (.system .alreadyExists) := by
    rw [makeDirectory, locate_eq_ok_iff.mpr ⟨hfits, hw'⟩]
    simp only [Bind.bind, Except.bind]
    cases hnode : fs.node? l' with
    | none => exact absurd hnode hsome
    | some n => rfl
  rw [ensureDirectories, hmake]
  simp [h]

end Files.FileSystem

end ScriptLoader
