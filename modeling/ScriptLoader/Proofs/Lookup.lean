import ScriptLoader.Lookup
import ScriptLoader.Proofs.Files.Names
import ScriptLoader.Proofs.Uri.File

/-!
# What a lookup finds, and how it fails

A lookup that reads directories gives URIs of files, and they can be opened again (`uri_of_get?`). It fails only where the system
refuses a path, which is tolerated, or where links lead in a circle (`failure_of_get?`, `failure_of_open?`).
-/

namespace ScriptLoader

open Files

/-- A failure of the loader or of the system, which a loader that opens a name answers with nothing. -/
def Failure.Tolerated (f : Failure) : Prop := (∃ e, f = .load e) ∨ ∃ fault path, f = .system fault path

/-- A path has no real path because of a circle of links. -/
def Host.Loops (h : Host) (f : Failure) : Prop := (∃ path, f = .linkLoop path) ∧ ∃ p, h.realPath p = .error f

theorem failure_of_realPath {h : Host} {p : Path} {f : Failure} (hreal : h.realPath p = .error f) :
    h.Loops f ∨ (f = .invalid nulReport ∧ ¬NulFree p.names) := by
  rcases bind_eq_error_iff.mp hreal with hmapped | ⟨loc, -, hpure⟩
  · obtain ⟨fault, hloc, hf⟩ := mapError_eq_error_iff.mp hmapped
    cases fault with
    | linkLoop path => exact .inl ⟨⟨path, hf.symm⟩, p, hreal⟩
    | nulCharacter => exact .inr ⟨hf.symm, FileSystem.nul_of_realPath hloc⟩
  · nomatch hpure

theorem isAbsolute_of_realPath {h : Host} {p q : Path} (hreal : h.realPath p = .ok q) :
    ∃ loc, q = ⟨.slash, loc⟩ ∧ h.files.realPath h.cwd p = .ok loc := by
  obtain ⟨loc, hloc, hq⟩ := bind_eq_ok_iff.mp hreal
  exact ⟨loc, (Except.ok.inj hq).symm, mapError_eq_ok_iff.mp hloc⟩

/-- A path that leads to a file is one that the system takes. -/
theorem nulFree_of_leadsToFile {fs : FileSystem} {cwd : Location} {p : Path} (h : fs.leadsToFile cwd p = .ok true) :
    NulFree p.names := by
  have hstat : ∃ n, fs.stat cwd p = .ok n := by
    unfold FileSystem.leadsToFile at h
    split at h
    · rename_i hfile
      exact ⟨_, hfile⟩
    all_goals nomatch h
  obtain ⟨n, hn⟩ := hstat
  obtain ⟨l, hl, -⟩ := FileSystem.stat_eq_ok_iff.mp hn
  exact nulFree_iff.mp (FileSystem.locate_eq_ok_iff.mp hl).1.nul

namespace Lookup

variable {h : Host} {name : String}

/-- The lookup reads directories and nothing else. -/
inductive ReadsFiles : Lookup → Prop where
  | search (roots : List String) : ReadsFiles (.search roots)
  | package (name : String) : ReadsFiles (.package name)
  | chain {lookups : List Lookup} (all : ∀ l ∈ lookups, ReadsFiles l) : ReadsFiles (.chain lookups)

/-- The URI of a file, as it is seen from the root, without a NUL in its path. -/
def IsFileUri (url : String) : Prop := ∃ p : Path, p.isAbsolute = true ∧ NulFree p.names ∧ url = p.uri

/-! ## Directories -/

theorem failure_of_fileBelow? {root : String} {f : Failure} (hfails : fileBelow? h name root = .error f) :
    f.Tolerated ∨ h.Loops f ∨ ∃ m, f = .invalid m := by
  have hreal {p : Path} (hp : h.realPath p = .error f) : f.Tolerated ∨ h.Loops f ∨ ∃ m, f = .invalid m := by
    rcases failure_of_realPath hp with hloop | ⟨hinvalid, -⟩
    · exact .inr (.inl hloop)
    · exact .inr (.inr ⟨_, hinvalid⟩)
  unfold fileBelow? at hfails
  rcases bind_eq_error_iff.mp hfails with hroot | ⟨root, -, hfails⟩
  · exact hreal hroot
  rcases bind_eq_error_iff.mp hfails with hcandidate | ⟨candidate, -, hfails⟩
  · exact hreal hcandidate
  split at hfails
  · split at hfails
    · exact .inl (.inr ⟨_, _, (Except.error.inj hfails).symm⟩)
    · nomatch hfails
  · nomatch hfails

theorem failure_of_searchFor {roots : List String} {f : Failure} (hfails : searchFor h name roots = .error f) :
    f.Tolerated ∨ h.Loops f := by
  induction roots with
  | nil => nomatch hfails
  | cons root roots ih =>
    unfold searchFor at hfails
    split at hfails
    · nomatch hfails
    · rename_i f' hvalid hbelow
      obtain rfl := Except.error.inj hfails
      rcases failure_of_fileBelow? hbelow with htolerated | hloop | ⟨m, hm⟩
      · exact .inl htolerated
      · exact .inr hloop
      · exact absurd hm (hvalid m)
    · nomatch hfails
    · exact ih hfails

theorem uri_of_searchFor {roots : List String} {url : String} (hfound : searchFor h name roots = .ok (some url)) :
    IsFileUri url := by
  induction roots with
  | nil => nomatch hfound
  | cons root roots ih =>
    unfold searchFor at hfound
    split at hfound
    · nomatch hfound
    · nomatch hfound
    · rename_i p hbelow
      unfold fileBelow? at hbelow
      obtain ⟨root, -, hbelow⟩ := bind_eq_ok_iff.mp hbelow
      obtain ⟨candidate, hcandidate, hbelow⟩ := bind_eq_ok_iff.mp hbelow
      obtain ⟨loc, rfl, -⟩ := isAbsolute_of_realPath hcandidate
      split at hbelow
      · split at hbelow
        · nomatch hbelow
        · rename_i found hleads
          cases found with
          | false => nomatch hbelow
          | true =>
            obtain rfl := Option.some.inj (Except.ok.inj hbelow)
            exact ⟨_, rfl, nulFree_of_leadsToFile hleads, (Option.some.inj (Except.ok.inj hfound)).symm⟩
      · nomatch hbelow
    · exact ih hfound

/-! ## Packages -/

theorem failure_of_packageFile {package : String} {f : Failure} (hfails : packageFile h package name = .error f) :
    f.Tolerated ∨ h.Loops f := by
  unfold packageFile at hfails
  split at hfails
  · nomatch hfails
  · simp only at hfails
    split at hfails
    · exact .inl (.inr ⟨_, _, (Except.error.inj hfails).symm⟩)
    · nomatch hfails
    · rename_i hleads
      rcases bind_eq_error_iff.mp hfails with hreal | ⟨p, -, hpure⟩
      · rcases failure_of_realPath hreal with hloop | ⟨-, hnul⟩
        · exact .inr hloop
        · exact absurd (nulFree_of_leadsToFile hleads) hnul
      · nomatch hpure

theorem uri_of_packageFile {package url : String} (hlinks : h.files.LinksNulFree) (hcwd : NulFree h.cwd)
    (hfound : packageFile h package name = .ok (some url)) : IsFileUri url := by
  unfold packageFile at hfound
  split at hfound
  · nomatch hfound
  · simp only at hfound
    split at hfound
    · nomatch hfound
    · nomatch hfound
    · rename_i hleads
      obtain ⟨p, hreal, hpure⟩ := bind_eq_ok_iff.mp hfound
      obtain ⟨loc, rfl, hloc⟩ := isAbsolute_of_realPath hreal
      have hfree := FileSystem.nulFree_realPath hlinks hcwd (nulFree_of_leadsToFile hleads) hloc
      exact ⟨_, rfl, hfree, (Option.some.inj (Except.ok.inj hpure)).symm⟩

/-! ## All lookups -/

/-- What the first of several lookups says that says something, one of them says. -/
theorem get?_of_getFirst? {lookups : List Lookup} {r : Except Failure (Option String)} (hr : getFirst? h name lookups = r)
    (hsome : r ≠ .ok none) : ∃ l ∈ lookups, l.get? h name = r := by
  induction lookups with
  | nil => exact absurd hr.symm hsome
  | cons l ls ih =>
    rw [getFirst?] at hr
    split at hr
    · obtain ⟨l', hl', h'⟩ := ih hr
      exact ⟨l', List.mem_cons_of_mem _ hl', h'⟩
    · exact ⟨l, List.mem_cons_self, hr⟩

theorem open?_of_openFirst? {lookups : List Lookup} {r : Except Failure (Option Bytes)} (hr : openFirst? h name lookups = r)
    (hsome : r ≠ .ok none) : ∃ l ∈ lookups, l.open? h name = r := by
  induction lookups with
  | nil => exact absurd hr.symm hsome
  | cons l ls ih =>
    rw [openFirst?] at hr
    split at hr
    · obtain ⟨l', hl', h'⟩ := ih hr
      exact ⟨l', List.mem_cons_of_mem _ hl', h'⟩
    · exact ⟨l, List.mem_cons_self, hr⟩

/-- A lookup fails only for reasons that are tolerated, or because of a circle of links. -/
theorem failure_of_get? {l : Lookup} {f : Failure} (hl : l.ReadsFiles) (hfails : l.get? h name = .error f) :
    f.Tolerated ∨ h.Loops f := by
  induction hl with
  | search roots =>
    rw [get?] at hfails
    split at hfails
    · exact failure_of_searchFor hfails
    · nomatch hfails
  | package package =>
    rw [get?] at hfails
    split at hfails
    · exact failure_of_packageFile hfails
    · nomatch hfails
  | chain _ ih =>
    rw [get?] at hfails
    obtain ⟨l, hl, hfails⟩ := get?_of_getFirst? hfails nofun
    exact ih l hl hfails

/-- What a lookup that reads directories has for a name is the URI of a file. -/
theorem uri_of_get? {l : Lookup} {url : String} (hl : l.ReadsFiles) (hlinks : h.files.LinksNulFree) (hcwd : NulFree h.cwd)
    (hfound : l.get? h name = .ok (some url)) : IsFileUri url := by
  induction hl with
  | search roots =>
    rw [get?] at hfound
    split at hfound
    · exact uri_of_searchFor hfound
    · nomatch hfound
  | package package =>
    rw [get?] at hfound
    split at hfound
    · exact uri_of_packageFile hlinks hcwd hfound
    · nomatch hfound
  | chain _ ih =>
    rw [get?] at hfound
    obtain ⟨l, hl, hfound⟩ := get?_of_getFirst? hfound nofun
    exact ih l hl hfound

/-! ## Opening -/

/-- The URI of a path is read as what is written for the path. -/
theorem file_uri {p : Path} (habs : p.isAbsolute = true) (cwd : Path) :
    Address.file cwd p.uri = .ok (Path.absolute cwd (Path.ofText p.text)) := by
  have hplain : (⟨"file", "", String.ofList p.escaped, "", ""⟩ : Uri.Reference).plainPath = p.escaped := by
    have hscheme : Uri.parameterSchemes.contains "file" = false := by decide
    simp only [Uri.Reference.plainPath, Uri.splitParameters, hscheme, Bool.false_eq_true, if_false, String.toList_ofList]
  rw [Address.file, Path.parse_uri habs, Except.map, hplain, Path.unescaped_escaped]

/-- The URI of a file is read as a path without a NUL. -/
theorem file_of_isFileUri {url : String} (hurl : IsFileUri url) (cwd : Path) :
    ∃ q, Address.file cwd url = .ok q ∧ NulFree q.names := by
  obtain ⟨p, habs, hfree, rfl⟩ := hurl
  refine ⟨Path.absolute cwd (Path.ofText p.text), file_uri habs cwd, ?_⟩
  obtain ⟨cs, hcs⟩ := Path.toList_text_of_isAbsolute habs
  have hroot : (Path.ofText p.text).isAbsolute = true := by
    rw [Path.ofText, hcs]
    unfold Path.isAbsolute Root.ofChars
    simp only
    split <;> simp_all
  rw [Path.absolute, Path.normalized, Path.join, if_pos hroot]
  exact Path.nulFree_dropParents (Path.nulFree_ofText (Path.nul_not_mem_text hfree))

theorem bytesAt_of_isFileUri {url : String} (hurl : IsFileUri url) (h : Host) : ∃ bs, bytesAt h url = .ok bs := by
  obtain ⟨q, hq, hfree⟩ := file_of_isFileUri hurl h.here
  unfold bytesAt
  rw [hq]
  simp only [mapError_ok, Bind.bind, Except.bind]
  split
  · exact ⟨_, rfl⟩
  · exact ⟨_, rfl⟩
  · rename_i f hsystem hbytes
    obtain ⟨fault, hread, hf⟩ := mapError_eq_error_iff.mp hbytes
    cases fault with
    | system fault => exact absurd hf.symm (hsystem _ _)
    | nulCharacter => exact absurd hfree (FileSystem.nul_of_read hread)

theorem failure_of_openOne {l : Lookup} {f : Failure} (hl : l.ReadsFiles) (hlinks : h.files.LinksNulFree) (hcwd : NulFree h.cwd)
    (hfails : openOne h name l = .error f) : f.Tolerated ∨ h.Loops f := by
  rcases bind_eq_error_iff.mp hfails with hget | ⟨found, hget, hopen⟩
  · exact failure_of_get? hl hget
  · cases found with
    | none => nomatch hopen
    | some url =>
      obtain ⟨bs, hbs⟩ := bytesAt_of_isFileUri (uri_of_get? hl hlinks hcwd hget) h
      exact absurd (hbs.symm.trans hopen) nofun

/-- To open a name in a lookup fails only for reasons that are tolerated, or because of a circle of links. -/
theorem failure_of_open? {l : Lookup} {f : Failure} (hl : l.ReadsFiles) (hlinks : h.files.LinksNulFree) (hcwd : NulFree h.cwd)
    (hfails : l.open? h name = .error f) : f.Tolerated ∨ h.Loops f := by
  induction hl with
  | search roots =>
    rw [open?] at hfails
    exact failure_of_openOne (.search roots) hlinks hcwd hfails
  | package package =>
    rw [open?] at hfails
    exact failure_of_openOne (.package package) hlinks hcwd hfails
  | chain _ ih =>
    rw [open?] at hfails
    obtain ⟨l, hl, hfails⟩ := open?_of_openFirst? hfails nofun
    exact ih l hl hfails

end Lookup

end ScriptLoader
