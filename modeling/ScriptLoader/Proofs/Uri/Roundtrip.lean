import ScriptLoader.Proofs.Lookup.Package

/-!
# From a path to a URI and back

The text of an absolute path in normal form is made into a URI, which is read in two places: where a name that a lookup has is opened,
and where a source is read. Both get the text back, whatever characters it has, so they read the same file as the lookup has given
(`uri_reads_back`).
-/

namespace ScriptLoader

open Text Files

namespace Path

/-! ## Paths in normal form -/

/-- The text is an absolute path in normal form: it is written just as it is read, with every `..` taken out. -/
structure IsNormal (s : String) : Prop where
  absolute : (ofText s).isAbsolute = true
  normal : (ofText s).normalized.text = s

theorem areNames_nil : AreNames [] := fun _ hn => absurd hn List.not_mem_nil

/-- Where every `..` is taken out of names of an absolute path, and there is no `.`, the names that are left can be names of files. -/
theorem areNames_dropParents {above ns : List String} (habove : AreNames above) (hns : AreSteps ns) (hdot : "." ∉ ns) :
    AreNames (dropParents true above ns) := by
  induction ns generalizing above with
  | nil => exact fun n hn => habove n (List.mem_reverse.mp hn)
  | cons n ns ih =>
    rw [List.mem_cons, not_or] at hdot
    unfold dropParents
    split
    · cases above with
      | nil => exact ih areNames_nil hns.tail hdot.2
      | cons m ms =>
        simp only [if_neg (habove m List.mem_cons_self).parent]
        exact ih (fun x hx => habove x (List.mem_cons_of_mem _ hx)) hns.tail hdot.2
    · rename_i hback
      refine ih (List.forall_mem_cons.mpr ⟨?_, habove⟩) hns.tail hdot.2
      exact hns.isName List.mem_cons_self (Ne.symm hdot.1) hback

theorem dot_not_mem_ofText (s : String) : "." ∉ (ofText s).names := by
  intro hdot
  simpa using (List.mem_filter.mp hdot).2

/-- A path that is written with two slashes has one in front of what is written with one. -/
theorem toList_text_doubleSlash (ns : List String) :
    (⟨.doubleSlash, ns⟩ : Path).text.toList = '/' :: (⟨.slash, ns⟩ : Path).text.toList := by
  have hne : (Root.doubleSlash.text ++ joinFields '/' ns).isEmpty = false := by
    rw [Bool.eq_false_iff]
    intro hempty
    have hnil := congrArg String.toList (String.isEmpty_iff.mp hempty)
    rw [String.toList_append] at hnil
    cases hnil
  rw [toList_text, text]
  simp only [hne, Bool.false_eq_true, if_false]
  rw [String.toList_append, joinFields, String.toList_ofList]
  rfl

/-- No slash stands in front of names. -/
theorem glue_ne_slash {ns : List String} (h : AreNames ns) (cs : List Char) : glue '/' (ns.map String.toList) ≠ '/' :: cs := by
  cases ns with
  | nil => nofun
  | cons n ns =>
    have hn := h n List.mem_cons_self
    cases hchars : n.toList with
    | nil => exact absurd (String.toList_eq_nil_iff.mp hchars) hn.empty
    | cons c more =>
      have hc : c ≠ '/' := by
        rintro rfl
        exact hn.slash (hchars ▸ List.mem_cons_self)
      rw [List.map_cons, hchars]
      cases ns <;> exact fun heq => hc (List.cons.inj heq).1

/-- An absolute path is read as it is written, also with two slashes in front. -/
theorem ofText_text_of_isAbsolute {r : Root} {ns : List String} (hr : (⟨r, ns⟩ : Path).isAbsolute = true) (h : AreNames ns) :
    ofText (⟨r, ns⟩ : Path).text = ⟨r, ns⟩ := by
  cases r with
  | relative => cases hr
  | slash => exact ofText_text h
  | doubleSlash =>
    have hnames : namesOf (⟨.doubleSlash, ns⟩ : Path).text = ns := by
      have hslash := congrArg names (ofText_text h)
      change namesOf _ = ns at hslash
      rw [namesOf, fields, toList_text_doubleSlash, pieces, if_pos rfl, List.map_cons, List.filter_cons_of_neg (by decide)]
      exact hslash
    have hroot : Root.ofChars (⟨.doubleSlash, ns⟩ : Path).text.toList = .doubleSlash := by
      rw [toList_text_doubleSlash, toList_text]
      unfold Root.ofChars
      split
      · rename_i heq
        exact absurd (List.cons.inj (List.cons.inj heq).2).2 (glue_ne_slash h _)
      · rfl
      · rename_i hother heq
        exact absurd (List.cons.inj heq).2.symm (hother _)
      · rename_i hother
        exact absurd rfl (hother _)
    rw [ofText, hroot, hnames]

/-- A text in normal form is the text of the path that it is read as, and this path has no `.` and no `..`. -/
theorem IsNormal.path {s : String} (h : IsNormal s) : AreNames (ofText s).names ∧ (ofText s).text = s := by
  have habs := h.absolute
  have hnames : AreNames (ofText s).normalized.names := by
    rw [normalized, habs]
    exact areNames_dropParents areNames_nil (areSteps_ofText s) (dot_not_mem_ofText s)
  have hread : ofText s = (ofText s).normalized := by
    conv => lhs; rw [← h.normal]
    exact ofText_text_of_isAbsolute (r := (ofText s).root) habs hnames
  refine ⟨hread ▸ hnames, ?_⟩
  conv => lhs; rw [hread]
  exact h.normal

/-- The text of a path with names that files can have is in normal form. -/
theorem isNormal_text {p : Path} (habs : p.isAbsolute = true) (h : AreNames p.names) : IsNormal p.text := by
  have hread : ofText p.text = p := ofText_text_of_isAbsolute habs h
  refine ⟨by rw [hread, habs], ?_⟩
  rw [hread, normalized, habs, FileSystem.dropParents_of_areNames h]
  rfl

end Path

/-! ## Reading a URI -/

/-- The URI of a text in normal form is read as the text where a name that a lookup has is opened. -/
theorem Address.file_uri_of_isNormal {s : String} (hs : Path.IsNormal s) (cwd : Path) :
    Address.file cwd (Path.ofText s).uri = .ok (Path.ofText s) := by
  obtain ⟨hnames, htext⟩ := hs.path
  have hjoin : cwd.join (Path.ofText s) = Path.ofText s := if_pos hs.absolute
  rw [Lookup.file_uri hs.absolute, htext, Path.absolute, hjoin, Path.normalized, hs.absolute,
    FileSystem.dropParents_of_areNames hnames]
  rfl

/-- Where a source is read, the URI of a text in normal form is a `file` URI with the text as its path. -/
theorem Uri.parse_uri_of_isNormal {s : String} (hs : Path.IsNormal s) :
    ∃ r, Uri.Reference.parse "" (Path.ofText s).uri = .ok r ∧ r.scheme = "file" ∧ Uri.unescaped r.path = s := by
  refine ⟨_, Path.parse_uri hs.absolute, rfl, ?_⟩
  rw [Path.unescaped_escaped]
  exact hs.path.2

theorem Host.sourceOfUrl_of_isNormal {s : String} (hs : Path.IsNormal s) (h : Host) (label : String) :
    h.sourceOfUrl label (Path.ofText s).uri = (h.readText label (Path.ofText s)).map (⟨(Path.ofText s).uri, ·⟩) := by
  obtain ⟨r, hparse, hscheme, hpath⟩ := Uri.parse_uri_of_isNormal hs
  rw [sourceOfUrl, hparse]
  simp only [mapError_ok, Bind.bind, Except.bind, hscheme, if_true, hpath]
  cases h.readText label (Path.ofText s) <;> rfl

/-! ## Real paths are in normal form -/

namespace Files.FileSystem

variable {fs : FileSystem} {cwd l : Location} {p : Path} {ns : List String}

theorem areSteps_followNames {depth : Nat} {active : List Location} {here : Location} (hhere : Path.AreSteps here)
    (hns : Path.AreSteps ns) : Path.AreSteps (fs.followNames depth active here ns).names := by
  have hstart (target : String) {here : Location} (hhere : Path.AreSteps here) : Path.AreSteps (targetStart target here) := by
    unfold targetStart
    split
    · nofun
    · exact hhere
  fun_induction followNames fs depth active here ns with
  | case1 => exact hhere
  | case2 _ _ _ _ ih => exact ih hhere hns.tail
  | case3 _ _ _ _ _ ih => exact ih (fun m hm => hhere m (List.dropLast_subset _ hm)) hns.tail
  | case4 _ _ _ n ns _ _ _ ih =>
    exact ih (hhere.append fun m hm => hns m (List.mem_singleton.mp hm ▸ List.mem_cons_self)) hns.tail
  | case5 => exact hhere.append hns
  | case6 => exact hhere.append hns
  | case7 _ _ _ _ _ _ _ _ _ _ _ _ ih₁ ih₂ => exact ih₂ (ih₁ (hstart _ hhere) (areSteps_targetNames _)) hns.tail
  | case8 _ _ _ _ _ _ _ _ _ _ _ _ ih => exact (ih (hstart _ hhere) (areSteps_targetNames _)).append hns.tail

/-- The names of a real path can be names of files, also where links lead in a circle. -/
theorem areNames_realPath (hcwd : Path.AreNames cwd) (hp : Path.AreSteps p.names) (h : fs.realPath cwd p = .ok l) : Path.AreNames l := by
  have hreal : l = fs.realNames ((⟨.slash, cwd⟩ : Path).join p).names := by
    unfold realPath at h
    split at h
    · cases h
    · simp only at h
      split at h
      · cases h
      · exact (Except.ok.inj h).symm
  have hfollowed : Path.AreSteps (fs.followNames fs.nodes.length [] [] ((⟨.slash, cwd⟩ : Path).join p).names).names :=
    areSteps_followNames Path.areNames_nil.areSteps (Path.areSteps_join hcwd.areSteps hp)
  rw [hreal, realNames]
  refine Path.areNames_dropParents Path.areNames_nil (fun n hn => hfollowed n (List.mem_filter.mp hn).1) fun hdot => ?_
  simpa using (List.mem_filter.mp hdot).2

end Files.FileSystem

theorem Host.areNames_realPath {h : Host} (hcwd : Path.AreNames h.cwd) {p q : Path} (hp : Path.AreSteps p.names)
    (hreal : h.realPath p = .ok q) : q.isAbsolute = true ∧ Path.AreNames q.names := by
  obtain ⟨l, rfl, hl⟩ := isAbsolute_of_realPath hreal
  exact ⟨rfl, FileSystem.areNames_realPath hcwd hp hl⟩

/-! ## Lookups -/

namespace Lookup

variable {h : Host} {name url : String} {lookup : Lookup} {bs : Bytes}

/-- The URL names a file by a path in normal form. -/
def IsNormalUri (url : String) : Prop := ∃ s, Path.IsNormal s ∧ url = (Path.ofText s).uri

theorem isNormalUri_of_realPath (hcwd : Path.AreNames h.cwd) {p q : Path} (hp : Path.AreSteps p.names) (hreal : h.realPath p = .ok q) :
    IsNormalUri q.uri := by
  obtain ⟨habs, hnames⟩ := Host.areNames_realPath hcwd hp hreal
  refine ⟨q.text, Path.isNormal_text habs hnames, ?_⟩
  rw [Path.ofText_text_of_isAbsolute (r := q.root) habs hnames]

theorem isNormalUri_of_searchFor (hcwd : Path.AreNames h.cwd) {roots : List String} (hfound : searchFor h name roots = .ok (some url)) :
    IsNormalUri url := by
  induction roots with
  | nil => cases hfound
  | cons root roots ih =>
    unfold searchFor at hfound
    split at hfound
    · cases hfound
    · cases hfound
    · rename_i p hbelow
      unfold fileBelow? at hbelow
      obtain ⟨top, htop, hbelow⟩ := bind_eq_ok_iff.mp hbelow
      obtain ⟨candidate, hcandidate, hbelow⟩ := bind_eq_ok_iff.mp hbelow
      have hsteps := (Host.areNames_realPath hcwd (Path.areSteps_ofText root) htop).2.areSteps
      have huri := isNormalUri_of_realPath hcwd (Path.areSteps_join hsteps (Path.areSteps_ofText name)) hcandidate
      obtain rfl := Option.some.inj (Except.ok.inj hfound)
      split at hbelow
      · split at hbelow
        · cases hbelow
        · rename_i found _
          cases found with
          | false => cases hbelow
          | true =>
            obtain rfl := Option.some.inj (Except.ok.inj hbelow)
            exact huri
      · cases hbelow
    · exact ih hfound

theorem isNormalUri_of_packageFile (ho : h.Orderly) {package : String} (hfound : packageFile h package name = .ok (some url)) :
    IsNormalUri url := by
  unfold packageFile at hfound
  split at hfound
  · cases hfound
  · rename_i dir hdir
    simp only at hfound
    split at hfound
    · cases hfound
    · cases hfound
    · obtain ⟨p, hreal, hpure⟩ := bind_eq_ok_iff.mp hfound
      obtain rfl := Option.some.inj (Except.ok.inj hpure)
      have hsteps : Path.AreSteps (⟨.slash, dir⟩ : Path).names := (directory_of_package ho.planted hdir).names.areSteps
      exact isNormalUri_of_realPath ho.cwd (Path.areSteps_join hsteps (Path.areSteps_ofText name)) hreal

/-- What a lookup that reads directories has for a name is the URI of a path in normal form. -/
theorem isNormalUri_of_get? (ho : h.Orderly) (hl : lookup.ReadsFiles) (hfound : lookup.get? h name = .ok (some url)) :
    IsNormalUri url := by
  induction hl with
  | search roots => exact isNormalUri_of_searchFor ho.cwd (isRelativeName_of_get? hfound).2
  | package package =>
    rw [get?] at hfound
    split at hfound
    · exact isNormalUri_of_packageFile ho hfound
    · cases hfound
  | chain _ ih =>
    rw [get?] at hfound
    obtain ⟨l, hl, hfound⟩ := get?_of_getFirst? hfound (by rintro ⟨⟩)
    exact ih l hl hfound

/-- The bytes at a URL are what is read at the path that the URL names. -/
theorem bytesAt_eq_some_iff {p : Path} (hfile : Address.file h.here url = .ok p) :
    bytesAt h url = .ok (some bs) ↔ h.files.read h.cwd p = .ok bs := by
  have hread : h.fileBytes p = .ok bs ↔ h.files.read h.cwd p = .ok bs := mapError_eq_ok_iff
  rw [bytesAt, hfile, ← hread]
  simp only [mapError_ok, Bind.bind, Except.bind]
  split <;> rename_i hbytes <;> simp [hbytes, Pure.pure, Except.pure]

/-- A lookup opens nothing where it has nothing. -/
theorem open?_of_get?_none (hl : lookup.ReadsFiles) (hget : lookup.get? h name = .ok none) : lookup.open? h name = .ok none := by
  induction hl with
  | search roots => rw [open?, openOne, hget]; rfl
  | package package => rw [open?, openOne, hget]; rfl
  | @chain lookups all ih =>
    rw [get?] at hget
    rw [open?]
    induction lookups with
    | nil => rfl
    | cons l ls ihs =>
      rw [getFirst?] at hget
      split at hget
      · rename_i hnone
        rw [openFirst?, ih l List.mem_cons_self hnone]
        exact ihs (fun l hl => all l (List.mem_cons_of_mem _ hl)) (fun l hl => ih l (List.mem_cons_of_mem _ hl)) hget
      · rename_i hsome
        exact absurd hget hsome

/-- The file that a lookup names is the one that it opens, if it can be read. -/
theorem open?_of_bytesAt (hl : lookup.ReadsFiles) (hget : lookup.get? h name = .ok (some url)) (hbytes : bytesAt h url = .ok (some bs)) :
    lookup.open? h name = .ok (some bs) := by
  have hone {l : Lookup} (hget : l.get? h name = .ok (some url)) : openOne h name l = .ok (some bs) := by
    rw [openOne, hget]
    exact hbytes
  induction hl with
  | search roots => rw [open?, hone hget]
  | package package => rw [open?, hone hget]
  | @chain lookups all ih =>
    rw [get?] at hget
    rw [open?]
    induction lookups with
    | nil => cases hget
    | cons l ls ihs =>
      rw [getFirst?] at hget
      split at hget
      · rename_i hnone
        rw [openFirst?, open?_of_get?_none (all l List.mem_cons_self) hnone]
        exact ihs (fun l hl => all l (List.mem_cons_of_mem _ hl)) (fun l hl => ih l (List.mem_cons_of_mem _ hl)) hget
      · rw [openFirst?, ih l List.mem_cons_self hget]

/-! ## One file -/

/-- The URI of an absolute path in normal form is read back as the path, where a name that a lookup has is opened and where a source is
read. So a file that a lookup names is the file that is opened, if it can be read, and the file whose text a source has. -/
theorem uri_reads_back :
    (∀ s, Path.IsNormal s →
      (∀ cwd, (Address.file cwd (Path.ofText s).uri).map Path.text = .ok s) ∧
        ∃ r, Uri.Reference.parse "" (Path.ofText s).uri = .ok r ∧ r.scheme = "file" ∧ Uri.unescaped r.path = s) ∧
      ∀ h : Host, h.Orderly → ∀ lookup : Lookup, lookup.ReadsFiles → ∀ name url, lookup.get? h name = .ok (some url) →
        ∃ s, Path.IsNormal s ∧ url = (Path.ofText s).uri ∧
          (∀ bs, bytesAt h url = .ok (some bs) ↔ h.files.read h.cwd (Path.ofText s) = .ok bs) ∧
          (∀ bs, h.files.read h.cwd (Path.ofText s) = .ok bs → lookup.open? h name = .ok (some bs)) ∧
          ∀ label, h.sourceOfUrl label url = (h.readText label (Path.ofText s)).map (⟨url, ·⟩) := by
  refine ⟨fun s hs => ⟨fun cwd => ?_, Uri.parse_uri_of_isNormal hs⟩, ?_⟩
  · rw [Address.file_uri_of_isNormal hs]
    exact congrArg Except.ok hs.path.2
  · intro h ho lookup hl name url hget
    obtain ⟨s, hs, rfl⟩ := isNormalUri_of_get? ho hl hget
    have hfile := Address.file_uri_of_isNormal hs h.here
    exact ⟨s, hs, rfl, fun bs => bytesAt_eq_some_iff hfile,
      fun bs hread => open?_of_bytesAt hl hget ((bytesAt_eq_some_iff hfile).mpr hread), Host.sourceOfUrl_of_isNormal hs h⟩

/-- A path with two slashes in front and marks that a URI gives a meaning to, and a file in a package. -/
theorem uri_reads_back_marks :
    Path.IsNormal "//lib/é %;?#\n.ts" ∧
      (Address.file ⟨.slash, ["tmp"]⟩ (Path.ofText "//lib/é %;?#\n.ts").uri).map Path.text = .ok "//lib/é %;?#\n.ts" ∧
      packagedHost.Orderly ∧ (Lookup.package "p").ReadsFiles ∧
      (Lookup.package "p").get? packagedHost "./data.txt" = .ok (some (⟨.slash, ["pkgs", "p", "data.txt"]⟩ : Path).uri) ∧
      (Lookup.package "p").open? packagedHost "./data.txt" = .ok (some [0x64]) := by
  have hnormal : Path.IsNormal "//lib/é %;?#\n.ts" := ⟨by decide, by decide⟩
  obtain ⟨htexts, hlookups⟩ := uri_reads_back
  obtain ⟨s, hs, hurl, hbytes, hopen, -⟩ := hlookups packagedHost orderly_packagedHost _ (.package "p") _ _ get?_packagedHost.1
  have hnames : Path.AreNames ["pkgs", "p", "data.txt"] :=
    (orderly_packagedHost.planted.resolved (by decide) (noLink_packagedHost _)).names
  have hpath : Path.ofText s = ⟨.slash, ["pkgs", "p", "data.txt"]⟩ := by
    have hfile := Address.file_uri_of_isNormal hs packagedHost.here
    rw [← hurl, Address.file_location hnames] at hfile
    exact (Except.ok.inj hfile).symm
  have hread : packagedHost.files.read [] (Path.ofText s) = .ok [0x64] := by
    rw [hpath]
    exact FileSystem.read_eq_ok_iff.mpr (FileSystem.stat_eq_ok_iff.mp (stat_packagedHost ⟨by decide, by decide⟩ rfl))
  exact ⟨hnormal, (htexts _ hnormal).1 _, orderly_packagedHost, .package "p", get?_packagedHost.1, hopen _ hread⟩

end Lookup

end ScriptLoader
