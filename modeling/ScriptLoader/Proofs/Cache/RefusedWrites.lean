import ScriptLoader.Proofs.Cache.Changes
import ScriptLoader.Proofs.Cache.Failures
import ScriptLoader.Proofs.Cache.Mirror
import ScriptLoader.Proofs.Files.Directories

/-!
# Writes that are refused

A disk cache is used and its files are changed from outside (`history`). No request leaves a file behind that is not an entry, and a
write that is refused, at whatever step, leaves every file as it was: all that it may have changed is that there are more directories.
So where there was an entry, the same is answered afterwards, and where the path of the cache has no `..` and no name that is too long,
the same is answered where there was none (`refused_put_keeps_files`).
-/

namespace ScriptLoader.Cache

open Files FileSystem CodeCache

variable {fs fs' : FileSystem} {h : Host} {d : Path} {s t : Source} {w : World} {l : Location} {n : String}

/-! ## One request -/

/-- Whatever the name, clearing only takes files and links away. -/
theorem taken_of_unlinkAll (h : Host) (d : Path) (fs : FileSystem) (names : List String) (x : Location) :
    (unlinkAll h d fs names).1.node? x = fs.node? x ∨
      ((unlinkAll h d fs names).1.node? x = none ∧ fs.node? x ≠ some .directory) := by
  induction names generalizing fs with
  | nil => exact .inl rfl
  | cons n names ih =>
    rw [unlinkAll]
    split
    · rename_i fs' hunlink
      obtain ⟨l, -, -, hfile, rfl⟩ := unlink_eq_ok_iff.mp hunlink
      have hne : l ≠ [] := by
        rintro rfl
        exact hfile rfl
      have hremoved : (fs.remove l).node? x = if x = l then none else fs.node? x := node?_remove hne x
      by_cases hx : x = l
      · subst hx
        rw [if_pos rfl] at hremoved
        refine .inr ⟨?_, hfile⟩
        rcases ih (fs.remove x) with hsame | ⟨hnone, -⟩
        · rw [hsame, hremoved]
        · exact hnone
      · rw [if_neg hx] at hremoved
        rw [← hremoved]
        exact ih (fs.remove l)
    · exact ih fs
    · exact .inl rfl

theorem taken_of_diskClear (h : Host) (d : Path) (x : Location) :
    (diskClear h d).1.node? x = h.files.node? x ∨ ((diskClear h d).1.node? x = none ∧ h.files.node? x ≠ some .directory) := by
  unfold diskClear
  split
  · exact .inl rfl
  · split
    · exact .inl rfl
    · exact taken_of_unlinkAll h d h.files _ x

/-- A write that is refused has only made directories on the path of the cache. -/
theorem changes_of_refused {code : String} {f : Failure} (hput : diskPut h d s code = (fs, .error f)) (l : Location) :
    fs.node? l = h.files.node? l ∨ (h.files.node? l = none ∧ fs.node? l = some .directory ∧
      ∃ ns, ns <+: d.names ∧ h.files.Leads (d.start h.cwd) ns l) := by
  have hresult := putResult_diskPut h d s code
  rw [hput] at hresult
  have hchange : Change d h.cwd (fun _ => False) h.files fs l := by
    cases hresult with
    | refused made same =>
      have hmade := (Changes.refl d h.cwd (fun _ => False) h.files).ensureDirectories (p := d) rfl (List.prefix_refl _)
      rcases made with rfl | rfl
      · exact .same (same l)
      · exact (hmade l).of_same (same l)
  cases hchange with
  | same same => exact .inl same
  | made missing made part leads => exact .inr ⟨missing, made, _, part, leads⟩
  | written fine => exact fine.elim

/-- A write that is refused has only made directories. -/
theorem grows_of_refused {code : String} {f : Failure} (hput : diskPut h d s code = (fs, .error f)) : Grows h.files fs :=
  fun l => (changes_of_refused hput l).imp_right fun ⟨hnone, hdir, _⟩ => ⟨hnone, hdir⟩

/-- A file that a write leaves at a place that is not that of an entry was there before. -/
theorem file_of_diskPut {code : String} {bs : Bytes} (hn : n ≠ Entry.fileName s)
    (hfile : (diskPut h d s code).1.node? (l ++ [n]) = some (.file bs)) : h.files.node? (l ++ [n]) = some (.file bs) := by
  have hmade {x : Location} {made : FileSystem} (hgrows : Grows h.files made) (hfile : made.node? x = some (.file bs)) :
      h.files.node? x = some (.file bs) := by
    rcases hgrows x with hsame | ⟨-, hdir⟩
    · rw [← hsame, hfile]
    · rw [hdir] at hfile
      cases hfile
  have hresult := putResult_diskPut h d s code
  generalize diskPut h d s code = r at hresult hfile
  cases hresult with
  | @stored made fs' loc hensured _ _ holds =>
    have hne : l ++ [n] ≠ entryAt loc s := fun heq => hn (List.cons.inj (List.append_inj' heq rfl).2).1
    have hgrows := grows_ensureDirectories h.files h.cwd d
    rw [hensured] at hgrows
    rw [holds, if_neg hne] at hfile
    exact hmade hgrows hfile
  | @refused made fs' f hensured hsame =>
    rw [hsame] at hfile
    rcases hensured with rfl | rfl
    · exact hfile
    · exact hmade (grows_ensureDirectories h.files h.cwd d) hfile

/-- The system takes the name of an entry. -/
theorem takesName_fileName (s : Source) : (Entry.fileName s).utf8ByteSize ≤ maxName ∧ '\x00' ∉ (Entry.fileName s).toList := by
  have hsize : 69 ≤ maxName := by decide
  exact ⟨Entry.utf8ByteSize_fileName s ▸ hsize, Entry.not_mem_fileName (by decide) (by decide) s⟩

/-- A write leaves files that are in order in order. -/
theorem kept_of_diskPut (hkept : h.files.Kept h.cwd) (hd : Path.AreSteps d.names) (s : Source) (code : String) :
    (diskPut h d s code).1.Kept h.cwd := by
  have hensured := hkept.ensureDirectories hd
  have hresult := putResult_diskPut h d s code
  generalize diskPut h d s code = r at hresult
  cases hresult with
  | stored made leads free holds =>
    rw [made] at hensured
    exact hensured.put ⟨leads.2, Entry.isName_fileName s, takesName_fileName s⟩ free (fun _ => by simp) holds
  | refused made same =>
    rcases made with rfl | rfl
    · exact hkept.taken fun x => .inl (same x)
    · exact hensured.taken fun x => .inl (same x)

/-! ## What is found after a refusal -/

/-- What is found depends on what is read at the path of the entry. -/
theorem diskGet_of_read_eq {h' : Host} (hread : h'.files.read h'.cwd (entryPath d t) = h.files.read h.cwd (entryPath d t)) :
    diskGet h' d t = diskGet h d t := by
  simp only [diskGet, hread]

/-- After a write that is refused, the same is found as before, unless there was no entry. -/
theorem diskGet_of_refused {h' : Host} {code : String} {f : Failure} (hcwd : h'.cwd = h.cwd)
    (hput : diskPut h d s code = (h'.files, .error f)) (t : Source) :
    h.files.read h.cwd (entryPath d t) = .error (.system .notFound) ∨ diskGet h' d t = diskGet h d t :=
  (read_of_grows (grows_of_refused hput) h.cwd (entryPath d t)).imp_right fun hread => diskGet_of_read_eq (by rw [hcwd, hread])

/-- After a write that is refused, just the same is found as before where the path of the cache does not go back and has no name that is
too long. -/
theorem diskGet_of_refused_fresh {h' : Host} {code : String} {f : Failure} (hcwd : h'.cwd = h.cwd)
    (hput : diskPut h d s code = (h'.files, .error f)) (hplanted : h.files.Planted) (hd : AreFresh d.names) (t : Source) :
    diskGet h' d t = diskGet h d t := by
  have hmade := read_ensureDirectories (r := d.root) hplanted h.cwd hd (plain_of_isName (Entry.isName_fileName t))
    (takesName_fileName t).1
  rw [← entryPath_eq] at hmade
  refine diskGet_of_read_eq ?_
  have hresult := putResult_diskPut h d s code
  rw [hput] at hresult
  cases hresult with
  | refused made same =>
    rw [hcwd, read_of_same same]
    rcases made with rfl | rfl
    · rfl
    · exact hmade

/-! ## Histories -/

/-- What happens to the directory of a cache: a request is made, while the system refuses some steps of a write, or the files are changed
from outside. -/
inductive Step where
  | request (trouble : WriteStep → Option Fault) (r : Request)
  | outside (files : FileSystem)

/-- The world in which the system refuses these steps of a write. -/
def troubled (w : World) (trouble : WriteStep → Option Fault) : World := { w with host := { w.host with trouble } }

/-- The world after a step. -/
def Step.after (d : Path) (w : World) : Step → World
  | request trouble r => (Action.exec (r.ask (.disk d)) (troubled w trouble)).2
  | outside files => { w with host := { w.host with files } }

/-- The world after steps, one after the other. -/
def history (d : Path) (w : World) (steps : List Step) : World := steps.foldl (Step.after d) w

/-- What a cache in the directory `d` answers to a request for code. -/
def answer (d : Path) (w : World) (s : Source) : Except Failure (Option String) := (Action.exec ((CodeCache.disk d).get? s) w).1

theorem exec_get?_disk (d : Path) (s : Source) (w : World) :
    answer d w s = (diskGet w.host d s).map Found.code? ∧ (Action.exec ((CodeCache.disk d).get? s) w).2.host = w.host := by
  cases hget : diskGet w.host d s with
  | error f => simp [answer, CodeCache.get?, Action.exec_bind, hget, Except.map]
  | ok found =>
    obtain ⟨w', hexec, hhost⟩ := exec_get_disk hget
    rw [answer, hexec]
    exact ⟨rfl, hhost⟩

/-- The files that a request leaves. -/
def Request.files (h : Host) (d : Path) : Request → FileSystem
  | get _ => h.files
  | put s code => (diskPut h d s code).1
  | clear => (diskClear h d).1

/-- A request changes nothing outside the memory of the process but files. -/
theorem host_of_request (d : Path) (w : World) (r : Request) :
    (Action.exec (r.ask (.disk d)) w).2.host = { w.host with files := r.files w.host d } := by
  cases r with
  | get s =>
    rw [Request.ask, (exec_get?_disk d s w).2]
    rfl
  | put s code =>
    simp only [Request.ask, Action.exec_bind, exec_put_disk, Request.files]
    generalize diskPut w.host d s code = made
    rcases made with ⟨fs, _ | _⟩ <;> rfl
  | clear =>
    simp only [Request.ask, Action.exec_bind, exec_clear_disk, Request.files]
    generalize diskClear w.host d = cleared
    rcases cleared with ⟨fs, _ | _⟩ <;> rfl

/-- The files after a step. -/
def Step.files (d : Path) (w : World) : Step → FileSystem
  | request trouble r => r.files (troubled w trouble).host d
  | outside files => files

theorem files_after (d : Path) (w : World) (step : Step) :
    (step.after d w).host.files = step.files d w ∧ (step.after d w).host.cwd = w.host.cwd := by
  cases step with
  | request trouble r =>
    rw [Step.after, host_of_request]
    exact ⟨rfl, rfl⟩
  | outside files => exact ⟨rfl, rfl⟩

/-- A file that is there after a step and is no entry was there before, or has come from outside. -/
theorem file_of_step {bs : Bytes} {step : Step} (hn : ∀ s, n ≠ Entry.fileName s)
    (hfile : (step.after d w).host.files.node? (l ++ [n]) = some (.file bs)) :
    w.host.files.node? (l ++ [n]) = some (.file bs) ∨ ∃ fs, step = .outside fs ∧ fs.node? (l ++ [n]) = some (.file bs) := by
  rw [(files_after d w step).1] at hfile
  cases step with
  | outside fs => exact .inr ⟨fs, rfl, hfile⟩
  | request trouble r =>
    cases r with
    | get s => exact .inl hfile
    | put s code => exact .inl (file_of_diskPut (h := (troubled w trouble).host) (hn s) hfile)
    | clear =>
      rcases taken_of_diskClear (troubled w trouble).host d (l ++ [n]) with hsame | ⟨hnone, -⟩
      · exact .inl (hsame.symm.trans hfile)
      · cases hnone.symm.trans hfile

/-- A step leaves files that are in order in order, if what comes from outside is. -/
theorem kept_of_step {step : Step} (hkept : w.host.files.Kept w.host.cwd) (hd : Path.AreSteps d.names)
    (houtside : ∀ fs, step = .outside fs → fs.Kept w.host.cwd) : (step.after d w).host.files.Kept w.host.cwd := by
  rw [(files_after d w step).1]
  cases step with
  | outside fs => exact houtside fs rfl
  | request trouble r =>
    cases r with
    | get s => exact hkept
    | put s code => exact kept_of_diskPut (h := (troubled w trouble).host) hkept hd s code
    | clear => exact hkept.taken (taken_of_diskClear (troubled w trouble).host d)

/-- A file that is there after a history and is no entry was there before, or has come from outside. -/
theorem file_of_history {bs : Bytes} {steps : List Step} (hn : ∀ s, n ≠ Entry.fileName s)
    (hfile : (history d w steps).host.files.node? (l ++ [n]) = some (.file bs)) :
    w.host.files.node? (l ++ [n]) = some (.file bs) ∨ ∃ fs, .outside fs ∈ steps ∧ fs.node? (l ++ [n]) = some (.file bs) := by
  induction steps generalizing w with
  | nil => exact .inl hfile
  | cons step steps ih =>
    rcases ih hfile with hbefore | ⟨fs, hmem, hfs⟩
    · rcases file_of_step hn hbefore with hstart | ⟨fs, rfl, hfs⟩
      · exact .inl hstart
      · exact .inr ⟨fs, List.mem_cons_self, hfs⟩
    · exact .inr ⟨fs, List.mem_cons_of_mem _ hmem, hfs⟩

/-- Over a history files stay in order. -/
theorem kept_of_history {steps : List Step} (hkept : w.host.files.Kept w.host.cwd) (hd : Path.AreSteps d.names)
    (houtside : ∀ fs, .outside fs ∈ steps → fs.Kept w.host.cwd) :
    (history d w steps).host.files.Kept w.host.cwd ∧ (history d w steps).host.cwd = w.host.cwd := by
  induction steps generalizing w with
  | nil => exact ⟨hkept, rfl⟩
  | cons step steps ih =>
    have hcwd := (files_after d w step).2
    have hnext := kept_of_step hkept hd fun fs hfs => houtside fs (hfs ▸ List.mem_cons_self)
    obtain ⟨hfiles, hlast⟩ := ih (hcwd ▸ hnext) fun fs hmem => hcwd ▸ houtside fs (List.mem_cons_of_mem _ hmem)
    exact ⟨hcwd ▸ hfiles, hlast.trans hcwd⟩

/-! ## A refusal in a history -/

theorem diskPut_of_exec {code : String} {r : Except Failure Unit} {after : World}
    (hput : Action.exec ((CodeCache.disk d).put s code) w = (r, after)) :
    diskPut w.host d s code = (after.host.files, r) ∧ after.host.cwd = w.host.cwd := by
  rw [exec_put_disk] at hput
  obtain ⟨rfl, rfl⟩ := Prod.mk.inj hput
  exact ⟨rfl, rfl⟩

/-- What is found does not depend on what the system refuses in a write. -/
theorem answer_troubled (d : Path) (w : World) (trouble : WriteStep → Option Fault) (t : Source) :
    answer d (troubled w trouble) t = answer d w t := by
  rw [(exec_get?_disk d t _).1, (exec_get?_disk d t _).1]
  rfl

/-- However a cache in a directory has been used and its files have been changed from outside, no request has left a file but entries, so
no temporary file; and a write that is refused, at whatever step, changes nothing but that directories of its path are there where nothing
was. A request for which there was an entry is answered as before; where the path has no `..` and no name that is too long, each is. -/
theorem refused_put_keeps_files (text : String) (w : World) (steps : List Step) :
    let d := Path.ofText text
    let before := history d w steps
    (∀ l n bs, (∀ s, n ≠ Entry.fileName s) → before.host.files.node? (l ++ [n]) = some (.file bs) →
      w.host.files.node? (l ++ [n]) = some (.file bs) ∨ ∃ fs, .outside fs ∈ steps ∧ fs.node? (l ++ [n]) = some (.file bs)) ∧
      ∀ trouble s code f after, Action.exec ((CodeCache.disk d).put s code) (troubled before trouble) = (.error f, after) →
        (∀ l, after.host.files.node? l = before.host.files.node? l ∨
          (before.host.files.node? l = none ∧ after.host.files.node? l = some .directory ∧
            ∃ ns, ns <+: d.names ∧ before.host.files.Leads (d.start before.host.cwd) ns l)) ∧
        (∀ t, answer d after t = answer d before t ∨
          before.host.files.read before.host.cwd (entryPath d t) = .error (.system .notFound)) ∧
        (w.host.files.Kept w.host.cwd → (∀ fs, .outside fs ∈ steps → fs.Kept w.host.cwd) → AreFresh d.names →
          ∀ t, answer d after t = answer d before t) := by
  intro d before
  refine ⟨fun l n bs hn hfile => file_of_history hn hfile, fun trouble s code f after hput => ?_⟩
  obtain ⟨hrefused, hcwd⟩ := diskPut_of_exec hput
  refine ⟨fun l => changes_of_refused hrefused l, fun t => ?_, fun hkept houtside hfresh t => ?_⟩
  · rw [← answer_troubled d before trouble, (exec_get?_disk d t _).1, (exec_get?_disk d t _).1]
    rcases diskGet_of_refused hcwd hrefused t with hmissing | hsame
    · exact .inr hmissing
    · exact .inl (by rw [hsame])
  · obtain ⟨hfiles, -⟩ := kept_of_history hkept (Path.areSteps_ofText text) houtside
    rw [← answer_troubled d before trouble, (exec_get?_disk d t _).1, (exec_get?_disk d t _).1,
      diskGet_of_refused_fresh hcwd hrefused hfiles.planted hfresh t]

theorem trouble_of_attempt {step : WriteStep} {p : Path} {r : Except PathFault FileSystem} (hok : attempt h step p r = .ok fs) :
    h.trouble step = none := by
  unfold attempt at hok
  split at hok
  · cases hok
  · assumption

/-- A write succeeds only if the system refuses none of its steps. -/
theorem trouble_of_diskPut {code : String} (hput : (diskPut h d s code).2 = .ok ()) (step : WriteStep) : h.trouble step = none := by
  simp only [diskPut] at hput
  split at hput
  · cases hput
  rename_i made hprepare
  split at hput
  · cases hput
  unfold moveIn at hput
  split at hput
  · cases hput
  rename_i opened hcreate
  simp only at hput
  split at hput
  · rename_i hmoved
    obtain ⟨written, hwritten, l, -, hreplace⟩ := by simpa only [bind_eq_ok_iff] using hmoved
    cases step with
    | makeDirectory =>
      unfold prepare at hprepare
      split at hprepare
      · cases hprepare
      · assumption
    | createTemporary => exact trouble_of_attempt hcreate
    | writeTemporary => exact trouble_of_attempt hwritten
    | moveIntoPlace => exact trouble_of_attempt hreplace
  · split at hput <;> cases hput

/-- Code is kept, and other code for the same content cannot be moved into place: the first code stays. -/
theorem refused_put_keeps_files_stored :
    let s : Source := ⟨"file:///a.ts", "let a: string;"⟩
    let trouble : WriteStep → Option Fault := fun step => if step = .moveIntoPlace then some .permissionDenied else none
    let before := history (Path.ofText "/cache") (plainWorld []) [.request (fun _ => none) (.put s "let a;")]
    answer (Path.ofText "/cache") before s = .ok (some "let a;") ∧
      ∃ f after, Action.exec ((CodeCache.disk (Path.ofText "/cache")).put s "let b;") (troubled before trouble) = (.error f, after) ∧
        answer (Path.ofText "/cache") after s = .ok (some "let a;") := by
  intro s trouble before
  have hd : Path.ofText "/cache" = cachePath .slash := by decide
  have hput := quiet_put_cachePath [] (ensureDirectories_cachePath .slash) s "let a;"
  have hhost : before.host = { (plainWorld []).host with files := (diskPut (plainWorld []).host (cachePath .slash) s "let a;").1 } := by
    simp only [before, history, List.foldl_cons, List.foldl_nil, Step.after, host_of_request, hd]
    rfl
  have hkept : answer (Path.ofText "/cache") before s = .ok (some "let a;") := by
    rw [(exec_get?_disk _ s before).1, hhost, hd,
      diskGet_of_diskPut (fun loc target _ => by simp [plainWorld, entryAt, node?]) (fits_entryPath_cachePath .slash s) hput]
    rfl
  have hfresh : AreFresh (Path.ofText "/cache").names := by
    intro n hn
    obtain rfl := List.mem_singleton.mp (hd ▸ hn)
    exact ⟨⟨by decide, by decide⟩, by decide⟩
  cases hlater : Action.exec ((CodeCache.disk (Path.ofText "/cache")).put s "let b;") (troubled before trouble) with
  | mk result after =>
    cases result with
    | ok =>
      have hquiet := congrArg Prod.snd (diskPut_of_exec hlater).1
      have hnone : some Fault.permissionDenied = none := trouble_of_diskPut hquiet .moveIntoPlace
      cases hnone
    | error f =>
      have hrefused := (refused_put_keeps_files "/cache" (plainWorld []) [.request (fun _ => none) (.put s "let a;")]).2
        trouble s "let b;" f after hlater
      have hsame := hrefused.2.2 ⟨planted_of_nodes (by decide), rfl⟩ (by simp) hfresh s
      exact ⟨hkept, f, after, rfl, hsame.trans hkept⟩

/-- A path that goes back over a directory that is made for it, to a file: nothing is found before, and a file stands in the way
afterwards. -/
theorem refused_put_changes_answer :
    let s : Source := ⟨"file:///a.ts", "let a;"⟩
    let d := Path.ofText "m/../f"
    let w := plainWorld [(["f"], .file [0x78])]
    ∃ f g after, Action.exec ((CodeCache.disk d).put s "let a;") w = (.error f, after) ∧ IsStoreError f ∧
      answer d w s = .ok none ∧ answer d after s = .error g ∧ IsStoreError g := by
  intro s d w
  have hd : d = ⟨.relative, ["m", "..", "f"]⟩ := by decide
  let made : FileSystem := ⟨[(["m"], .directory), (["f"], .file [0x78])]⟩
  have hshort : ¬ maxName < "m".utf8ByteSize ∧ ¬ maxName < "f".utf8ByteSize := by decide
  have hmade : w.host.files.ensureDirectories w.host.cwd d = (made, some (.system .alreadyExists)) := by
    have htexts : ¬ maxPath < (⟨.relative, ["m", "..", "f"]⟩ : Path).text.utf8ByteSize ∧
        ¬ maxPath < (⟨.relative, ["m", ".."]⟩ : Path).text.utf8ByteSize ∧ ¬ maxPath < (⟨.relative, ["m"]⟩ : Path).text.utf8ByteSize := by
      decide
    rw [hd]
    simp [w, made, plainWorld, ensureDirectories, FileSystem.ensureDirectory, makeDirectory, leadsToDirectory, stat, locate,
      FileSystem.walk, node?, FileSystem.set, Path.parent, Path.isAbsolute, List.lookup_cons, hshort, htexts, Bind.bind, Except.bind,
      Except.mapError]
  have hput : diskPut w.host d s "let a;" = (made, .error (storeFailure .cacheWriteFailed (entryPath d s) (.system .alreadyExists))) := by
    simp only [diskPut, prepare, hmade]
    rfl
  have hentry : entryPath d s = ⟨.relative, ["m", "..", "f"] ++ [Entry.fileName s]⟩ := by rw [entryPath_eq, hd]
  have hfits : (entryPath d s).Fits := by
    rw [hentry]
    refine fits_snoc ⟨by decide, by decide⟩ (takesName_fileName s).2 ?_
    rw [Entry.utf8ByteSize_fileName]
    decide
  -- before, the first name is missing; afterwards, the last directory is a file
  have hbefore : w.host.files.read w.host.cwd (entryPath d s) = .error (.system .notFound) := by
    refine read_of_walk_error hfits ?_
    rw [hentry]
    simp [FileSystem.walk, w, plainWorld, node?, Path.start, Path.isAbsolute, List.lookup_cons, hshort]
  have hafter : made.read w.host.cwd (entryPath d s) = .error (.system .notDirectory) := by
    refine read_of_walk_error hfits ?_
    rw [hentry]
    simp [FileSystem.walk, made, w, plainWorld, node?, Path.start, Path.isAbsolute, List.lookup_cons, hshort]
  refine ⟨storeFailure .cacheWriteFailed (entryPath d s) (.system .alreadyExists),
    storeFailure .cacheReadFailed (entryPath d s) (.system .notDirectory), { w with host := { w.host with files := made } },
    (exec_put_disk w d s _).trans ?_, ⟨_, rfl⟩, ?_, ?_, ⟨_, rfl⟩⟩
  · rw [hput]
  · rw [(exec_get?_disk d s w).1]
    simp only [diskGet, hbefore]
    rfl
  · rw [(exec_get?_disk d s _).1]
    simp only [diskGet, hafter]
    rfl

end ScriptLoader.Cache
