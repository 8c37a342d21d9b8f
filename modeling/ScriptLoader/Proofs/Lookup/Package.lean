import ScriptLoader.Proofs.Lookup.SearchPath

/-!
# What a package gives

A package gives for a name the file that the name leads to from its directory, wherever that is (`get?_package_iff`). A name that
never goes back above the place where it is read leads to nothing outside of a directory without links, so lookups built from such
packages, and from directories, give only files in them (`lookup_stays_below`).
-/

namespace ScriptLoader

open Text Files

namespace Files.FileSystem

variable {fs : FileSystem} {d below l : Location} {ns : List String}

/-- The names go back above the place where they are read, which is so many names above. -/
def climbs (depth : Nat) : List String → Bool
  | [] => false
  | n :: ns =>
    if n = "." then climbs depth ns
    else if n = ".." then depth = 0 || climbs (depth - 1) ns
    else climbs (depth + 1) ns

/-- There is no link at a location or below it. -/
def LinkFreeBelow (fs : FileSystem) (d : Location) : Prop := ∀ l, d <+: l → ∀ target, fs.node? l ≠ some (.link target)

/-- Where there are no links, names that do not climb lead to nothing outside. -/
theorem Leads.stays_below {here : Location} (h : fs.Leads here ns l) (hfree : fs.LinkFreeBelow d) (hhere : d ++ below = here)
    (hclimbs : climbs below.length ns = false) : d <+: l := by
  induction h generalizing below with
  | here => exact hhere ▸ List.prefix_append d below
  | dot hn _ ih =>
    rw [climbs, if_pos hn] at hclimbs
    exact ih hhere hclimbs
  | back hn _ ih =>
    rw [climbs, if_neg (by rw [hn]; decide), if_pos hn] at hclimbs
    rcases List.eq_nil_or_concat below with rfl | ⟨below, n, rfl⟩
    · nomatch hclimbs
    · rw [List.concat_eq_append, ← List.append_assoc] at hhere
      exact ih (by rw [← hhere, List.dropLast_concat]) (by simpa using hclimbs)
  | @name here _ n _ hdot hback _ _ ih =>
    rw [climbs, if_neg hdot, if_neg hback] at hclimbs
    have hnext : d ++ (below ++ [n]) = here ++ [n] := by rw [← hhere, List.append_assoc]
    exact ih hnext (by rwa [List.length_append])
  | @link here _ n target _ _ _ hlink =>
    refine absurd hlink (hfree _ ?_ target)
    rw [← hhere, List.append_assoc]
    exact List.prefix_append _ _

/-- A path that leads to a file is found, and the file stands where the names lead. -/
theorem leads_of_stat {cwd : Location} {bs : Bytes} (hstat : fs.stat cwd ⟨.slash, ns⟩ = .ok (.file bs)) :
    NulFree ns ∧ ∃ l, fs.Leads [] ns l ∧ fs.content? l = some bs := by
  obtain ⟨l, hlocate, hnode⟩ := stat_eq_ok_iff.mp hstat
  obtain ⟨hfits, hwalks⟩ := locate_eq_ok_iff.mp hlocate
  exact ⟨nulFree_iff.mp hfits.nul, l, hwalks.leads, content?_eq_some_iff.mpr hnode⟩

theorem leadsToFile_eq_true_iff {cwd : Location} {p : Path} :
    fs.leadsToFile cwd p = .ok true ↔ ∃ bs, fs.stat cwd p = .ok (.file bs) := by
  unfold leadsToFile
  split <;> simp_all

theorem eq_of_leadsToFile {cwd : Location} {p : Path} {f : Fault} (h : fs.leadsToFile cwd p = .error f) : f = .nameTooLong := by
  unfold leadsToFile at h
  split at h <;> simp_all

end Files.FileSystem

namespace Lookup

variable {h : Host} {name url package : String} {dir l : Location} {lookup : Lookup} {bs : Bytes}

/-! ## The directory of a package -/

theorem directory_of_packageBelow? (hplanted : h.files.Planted) {here : Location} {ns : List String}
    (hdir : packageBelow? h here ns = some dir) (hns : ns ≠ []) : h.files.node? dir = some .directory := by
  induction ns generalizing here with
  | nil => exact absurd rfl hns
  | cons n ns ih =>
    rw [packageBelow?] at hdir
    split at hdir
    · rename_i hcontent
      cases ns with
      | nil =>
        obtain rfl : here ++ [n] = dir := Option.some.inj hdir
        refine hplanted.parent (here ++ [n]) "__init__.py" ?_
        rw [List.append_assoc]
        simp [FileSystem.content?_eq_some_iff.mp hcontent]
      | cons m ns => exact ih hdir (List.cons_ne_nil m ns)
    · nomatch hdir

/-- The directory of a package is there, and no link is above it. -/
theorem directory_of_package (hplanted : h.files.Planted) (hdir : packageDirectory? h package = some dir) : h.files.Resolved dir := by
  obtain ⟨root, -, hbelow⟩ := List.exists_of_findSome?_eq_some hdir
  have hnode := directory_of_packageBelow? hplanted hbelow (by simp [fields, pieces_ne_nil])
  exact hplanted.resolved (by simp [hnode]) (by simp [hnode])

/-- A relative name is put behind a directory. -/
theorem join_of_isRelativeName (hname : isRelativeName name = true) (dir : Location) :
    (⟨.slash, dir⟩ : Path).join (Path.ofText name) = ⟨.slash, dir ++ (Path.ofText name).names⟩ := by
  have hrelative : (Path.ofText name).isAbsolute = false := by
    simp only [isRelativeName, startsWith, Bool.and_eq_true, Bool.not_eq_true', Bool.eq_false_iff, ne_eq, List.isPrefixOf_iff_prefix]
      at hname
    have hslash (cs : List Char) : name.toList ≠ '/' :: cs := fun hcs => hname.2 (hcs ▸ List.prefix_append ['/'] cs)
    unfold Path.isAbsolute Path.ofText Root.ofChars
    split
    · exact absurd ‹_› (hslash _)
    · exact absurd ‹_› (hslash _)
    · exact absurd ‹_› (hslash _)
    · rfl
  rw [Path.join, hrelative]
  rfl

/-- The system finds a regular file under a name in a directory, and it is the one at the location `l`. -/
def FindsIn (h : Host) (dir : Location) (name : String) (l : Location) : Prop :=
  (∃ bs, h.files.stat h.cwd ⟨.slash, dir ++ (Path.ofText name).names⟩ = .ok (.file bs)) ∧
    h.files.Leads dir (Path.ofText name).names l

/-- A package gives the file that the name leads to from its directory, wherever that is. -/
theorem get?_package_iff (ho : h.Orderly) (hdir : packageDirectory? h package = some dir) :
    (Lookup.package package).get? h name = .ok (some url) ↔
      isRelativeName name = true ∧ ∃ l, FindsIn h dir name l ∧ url = (⟨.slash, l⟩ : Path).uri := by
  have hresolved := directory_of_package ho.planted hdir
  rw [get?]
  split
  · rename_i hname
    have hsteps : Path.AreSteps (dir ++ (Path.ofText name).names) := hresolved.names.areSteps.append (Path.areSteps_ofText name)
    have hreal {bs : Bytes} (hstat : h.files.stat h.cwd ⟨.slash, dir ++ (Path.ofText name).names⟩ = .ok (.file bs)) :
        ∃ l, h.files.Leads dir (Path.ofText name).names l ∧
          h.realPath ⟨.slash, dir ++ (Path.ofText name).names⟩ = .ok ⟨.slash, l⟩ := by
      obtain ⟨hfree, l, hleads, -⟩ := FileSystem.leads_of_stat hstat
      exact ⟨l, hleads.of_append hresolved, ho.realPath_of_leads hsteps hfree hleads⟩
    simp only [packageFile, hdir, join_of_isRelativeName hname, hname, true_and]
    constructor
    · intro hfound
      split at hfound
      · cases hfound
      · cases hfound
      · rename_i hasked
        obtain ⟨bs, hstat⟩ := FileSystem.leadsToFile_eq_true_iff.mp hasked
        obtain ⟨l, hleads, hpath⟩ := hreal hstat
        rw [hpath] at hfound
        exact ⟨l, ⟨⟨bs, hstat⟩, hleads⟩, (Option.some.inj (Except.ok.inj hfound)).symm⟩
    · rintro ⟨l, ⟨⟨bs, hstat⟩, hleads⟩, rfl⟩
      obtain ⟨l', hleads', hpath⟩ := hreal hstat
      obtain rfl := hleads.unique hleads'
      rw [FileSystem.leadsToFile_eq_true_iff.mpr ⟨bs, hstat⟩, hpath]
      rfl
  · rename_i hname
    exact iff_of_false (by rintro ⟨⟩) fun hfound => hname hfound.1

/-! ## Lookups that give only what is in their directories -/

/-- The lookup is built from packages without links in their directories, and from directories. -/
inductive Confined (h : Host) : Lookup → Prop where
  | package (name : String) (hfree : ∀ dir, packageDirectory? h name = some dir → h.files.LinkFreeBelow dir) : Confined h (.package name)
  | search (roots : List String) (hloops : h.files.LoopFree) : Confined h (.search roots)
  | chain {lookups : List Lookup} (all : ∀ l ∈ lookups, Confined h l) : Confined h (.chain lookups)

/-- The location is in a directory that the lookup reads: in that of a package, or in a directory that a path leads to. -/
inductive Covers (h : Host) : Lookup → Location → Prop where
  | package {name : String} {dir l : Location} (hdir : packageDirectory? h name = some dir) (hpre : dir <+: l) :
      Covers h (.package name) l
  | search {roots : List String} {root : String} {top l : Location} (hroot : root ∈ roots)
      (htop : h.files.Leads [] (h.here.join (Path.ofText root)).names top) (hpre : top <+: l) : Covers h (.search roots) l
  | chain {lookups : List Lookup} {lookup : Lookup} {l : Location} (hmem : lookup ∈ lookups) (hcovers : Covers h lookup l) :
      Covers h (.chain lookups) l

/-- What is given is a file in a directory that the lookup reads. -/
theorem covers_of_get? (ho : h.Orderly) (hl : Confined h lookup) (hclimbs : FileSystem.climbs 0 (Path.ofText name).names = false)
    (hget : lookup.get? h name = .ok (some url)) :
    ∃ l bs, Covers h lookup l ∧ h.files.content? l = some bs ∧ h.files.Resolved l ∧ url = (⟨.slash, l⟩ : Path).uri := by
  induction hl with
  | package package hfree =>
    cases hdir : packageDirectory? h package with
    | none =>
      rw [get?] at hget
      split at hget
      · rw [packageFile, hdir] at hget
        cases hget
      · cases hget
    | some dir =>
      have hresolved := directory_of_package ho.planted hdir
      obtain ⟨-, l, ⟨⟨bs, hstat⟩, hleads⟩, rfl⟩ := (get?_package_iff ho hdir).mp hget
      obtain ⟨-, l', hleads', hcontent⟩ := FileSystem.leads_of_stat hstat
      obtain rfl := hleads.unique (hleads'.of_append hresolved)
      refine ⟨l, bs, .package hdir ?_, hcontent, hleads.resolved hresolved (Path.areSteps_ofText name), rfl⟩
      exact hleads.stays_below (hfree dir hdir) (List.append_nil dir) hclimbs
  | search roots hloops =>
    obtain ⟨-, hfound⟩ := isRelativeName_of_get? hget
    obtain ⟨before, root, after, l, bs, rfl, -, ⟨hbelow, hcontent⟩, hurl, -⟩ := finds_of_searchFor ho hloops hfound
    have hresolved := hbelow.resolved ho.cwd
    obtain ⟨top, htop, -, hpre⟩ := hbelow
    exact ⟨l, bs, .search (List.mem_append_right _ List.mem_cons_self) htop hpre, hcontent, hresolved, hurl⟩
  | chain _ ih =>
    rw [get?] at hget
    obtain ⟨lookup, hmem, hget⟩ := get?_of_getFirst? hget (by rintro ⟨⟩)
    obtain ⟨l, bs, hcovers, hrest⟩ := ih lookup hmem hget
    exact ⟨l, bs, .chain hmem hcovers, hrest⟩

/-- What is read by the URI of a file without links above it is what the file holds. -/
theorem content_of_bytesAt (ho : h.Orderly) (hl : h.files.Resolved l) (hread : bytesAt h (⟨.slash, l⟩ : Path).uri = .ok (some bs)) :
    h.files.content? l = some bs := by
  rw [bytesAt, Address.file_location hl.names] at hread
  simp only [mapError_ok, Bind.bind, Except.bind] at hread
  split at hread
  · rename_i found hbytes
    obtain rfl : found = bs := Option.some.inj (Except.ok.inj hread)
    obtain hfound := mapError_eq_ok_iff.mp hbytes
    have hstat := FileSystem.stat_eq_ok_iff.mpr (FileSystem.read_eq_ok_iff.mp hfound)
    exact FileSystem.content?_eq_some_iff.mpr ((FileSystem.stat_eq_ok_iff_of_resolved ho.planted hl).mp hstat).2
  · cases hread
  · cases hread

/-- What is opened holds what a file in a directory that the lookup reads holds. -/
theorem covers_of_open? (ho : h.Orderly) (hl : Confined h lookup) (hclimbs : FileSystem.climbs 0 (Path.ofText name).names = false)
    (hopen : lookup.open? h name = .ok (some bs)) : ∃ l, Covers h lookup l ∧ h.files.content? l = some bs := by
  have hone {lookup : Lookup} (hl : Confined h lookup) (hopen : openOne h name lookup = .ok (some bs)) :
      ∃ l, Covers h lookup l ∧ h.files.content? l = some bs := by
    obtain ⟨found, hget, hbytes⟩ := bind_eq_ok_iff.mp hopen
    cases found with
    | none => cases hbytes
    | some url =>
      obtain ⟨l, _, hcovers, -, hresolved, rfl⟩ := covers_of_get? ho hl hclimbs hget
      exact ⟨l, hcovers, content_of_bytesAt ho hresolved hbytes⟩
  induction hl with
  | package package hfree =>
    rw [open?] at hopen
    exact hone (.package package hfree) hopen
  | search roots hloops =>
    rw [open?] at hopen
    exact hone (.search roots hloops) hopen
  | chain _ ih =>
    rw [open?] at hopen
    obtain ⟨lookup, hmem, hopen⟩ := open?_of_openFirst? hopen (by rintro ⟨⟩)
    obtain ⟨l, hcovers, hcontent⟩ := ih lookup hmem hopen
    exact ⟨l, .chain hmem hcovers, hcontent⟩

/-! ## Failures -/

theorem failure_of_realPath_of_loopFree (ho : h.Orderly) (hloops : h.files.LoopFree) {p : Path} {f : Failure}
    (hp : Path.AreSteps p.names) (hfails : h.realPath p = .error f) : f = .invalid nulReport := by
  by_cases hfree : NulFree p.names
  · obtain ⟨l, hl, -⟩ := ho.realPath hloops hp hfree
    rw [hl] at hfails
    nomatch hfails
  · rw [Host.realPath_of_nul hfree] at hfails
    exact (Except.error.inj hfails).symm

theorem failure_of_directory (ho : h.Orderly) (hloops : h.files.LoopFree) {root : String} {f : Failure}
    (hfails : fileBelow? h name root = .error f) : f = .invalid nulReport ∨ ∃ path, f = .system .nameTooLong path := by
  unfold fileBelow? at hfails
  rcases bind_eq_error_iff.mp hfails with hroot | ⟨top, hroot, hfails⟩
  · exact .inl (failure_of_realPath_of_loopFree ho hloops (Path.areSteps_ofText root) hroot)
  rcases bind_eq_error_iff.mp hfails with hcandidate | ⟨candidate, -, hfails⟩
  · have hsteps : Path.AreSteps top.names := by
      by_cases hfree : NulFree (Path.ofText root).names
      · obtain ⟨l, hl, -, hresolved, -⟩ := ho.realPath hloops (Path.areSteps_ofText root) hfree
        obtain rfl := Except.ok.inj (hl.symm.trans hroot)
        exact hresolved.names.areSteps
      · rw [Host.realPath_of_nul hfree] at hroot
        nomatch hroot
    exact .inl (failure_of_realPath_of_loopFree ho hloops (Path.areSteps_join hsteps (Path.areSteps_ofText name)) hcandidate)
  split at hfails
  · split at hfails
    · rename_i hasked
      obtain rfl := FileSystem.eq_of_leadsToFile hasked
      exact .inr ⟨_, (Except.error.inj hfails).symm⟩
    · nomatch hfails
  · nomatch hfails

theorem failure_of_searchPath (ho : h.Orderly) (hloops : h.files.LoopFree) {roots : List String} {f : Failure}
    (hfails : searchFor h name roots = .error f) : ∃ path, f = .system .nameTooLong path := by
  induction roots with
  | nil => cases hfails
  | cons root roots ih =>
    rw [searchFor] at hfails
    split at hfails
    · cases hfails
    · rename_i f' hvalid hbelow
      obtain rfl := Except.error.inj hfails
      rcases failure_of_directory ho hloops hbelow with hinvalid | hlong
      · exact absurd hinvalid (hvalid _)
      · exact hlong
    · cases hfails
    · exact ih hfails

theorem failure_of_packagePath (ho : h.Orderly) {f : Failure} (hname : isRelativeName name = true)
    (hfails : packageFile h package name = .error f) : ∃ path, f = .system .nameTooLong path := by
  unfold packageFile at hfails
  split at hfails
  · nomatch hfails
  · rename_i dir hdir
    simp only [join_of_isRelativeName hname] at hfails
    split at hfails
    · rename_i hasked
      obtain rfl := FileSystem.eq_of_leadsToFile hasked
      exact ⟨_, (Except.error.inj hfails).symm⟩
    · nomatch hfails
    · rename_i hasked
      obtain ⟨bs, hstat⟩ := FileSystem.leadsToFile_eq_true_iff.mp hasked
      obtain ⟨hfree, l, hleads, -⟩ := FileSystem.leads_of_stat hstat
      have hsteps := (directory_of_package ho.planted hdir).names.areSteps.append (Path.areSteps_ofText name)
      rw [ho.realPath_of_leads (p := ⟨.slash, _⟩) hsteps hfree hleads] at hfails
      nomatch hfails

/-- A lookup fails only where a path is too long to ask for. -/
theorem failure_of_confined (ho : h.Orderly) (hl : Confined h lookup) {f : Failure} (hfails : lookup.get? h name = .error f) :
    ∃ path, f = .system .nameTooLong path := by
  induction hl with
  | package package hfree =>
    rw [get?] at hfails
    split at hfails
    · exact failure_of_packagePath ho ‹_› hfails
    · cases hfails
  | search roots hloops =>
    rw [get?] at hfails
    split at hfails
    · exact failure_of_searchPath ho hloops hfails
    · cases hfails
  | chain _ ih =>
    rw [get?] at hfails
    obtain ⟨lookup, hmem, hfails⟩ := get?_of_getFirst? hfails (by rintro ⟨⟩)
    exact ih lookup hmem hfails

/-- A package gives for a name just the file that the name leads to from its directory. For a name that does not climb, a lookup that
is built from packages without links and from directories gives a file in one of their directories, and the bytes of one, or nothing,
or it fails because a path is too long. -/
theorem lookup_stays_below (ho : h.Orderly) (name : String) :
    (∀ package dir url, packageDirectory? h package = some dir →
      ((Lookup.package package).get? h name = .ok (some url) ↔
        isRelativeName name = true ∧ ∃ l, FindsIn h dir name l ∧ url = (⟨.slash, l⟩ : Path).uri)) ∧
      ∀ lookup, Confined h lookup → FileSystem.climbs 0 (Path.ofText name).names = false →
        (∀ url, lookup.get? h name = .ok (some url) →
          ∃ l bs, Covers h lookup l ∧ h.files.content? l = some bs ∧ Address.file h.here url = .ok ⟨.slash, l⟩) ∧
        (∀ bs, lookup.open? h name = .ok (some bs) → ∃ l, Covers h lookup l ∧ h.files.content? l = some bs) ∧
        ∀ f, lookup.get? h name = .error f → ∃ path, f = .system .nameTooLong path := by
  refine ⟨fun package dir url hdir => get?_package_iff ho hdir, fun lookup hl hclimbs => ⟨fun url hget => ?_, fun bs hopen => ?_,
    fun f hfails => failure_of_confined ho hl hfails⟩⟩
  · obtain ⟨l, bs, hcovers, hcontent, hresolved, rfl⟩ := covers_of_get? ho hl hclimbs hget
    exact ⟨l, bs, hcovers, hcontent, Address.file_location hresolved.names h.here⟩
  · exact covers_of_open? ho hl hclimbs hopen

/-- A package with a file in it and one beside it. -/
def packagedHost : Host :=
  { files := ⟨[(["pkgs"], .directory), (["pkgs", "secret.txt"], .file [0x73]), (["pkgs", "p"], .directory),
      (["pkgs", "p", "__init__.py"], .file []), (["pkgs", "p", "data.txt"], .file [0x64])]⟩
    cwd := [], packageRoots := [["pkgs"]], pages := [], run := fun fs _ _ _ _ => (.unavailable "", fs), trouble := fun _ => none }

theorem orderly_packagedHost : packagedHost.Orderly := ⟨FileSystem.planted_of_nodes (by decide), nofun, nofun⟩

theorem packageDirectory?_packagedHost : packageDirectory? packagedHost "p" = some ["pkgs", "p"] := by decide

theorem noLink_packagedHost (l : Location) (target : String) : packagedHost.files.node? l ≠ some (.link target) := by
  intro hlink
  rcases FileSystem.mem_nodes_of_node? hlink with rfl | hmem
  · cases hlink
  · simp [packagedHost] at hmem

theorem confined_packagedHost : Confined packagedHost (.chain [.package "q", .package "p"]) := by
  refine .chain fun lookup hmem => ?_
  rcases List.mem_pair.mp hmem with rfl | rfl
  · exact .package "q" fun dir _ l _ => noLink_packagedHost l
  · exact .package "p" fun dir _ l _ => noLink_packagedHost l

theorem stat_packagedHost {l : Location} {node : Node} (hfits : (⟨.slash, l⟩ : Path).Fits)
    (hnode : packagedHost.files.node? l = some node) : packagedHost.files.stat [] ⟨.slash, l⟩ = .ok node := by
  have hplanted := orderly_packagedHost.planted
  have hresolved := hplanted.resolved (by simp [hnode]) (noLink_packagedHost l)
  exact (FileSystem.stat_eq_ok_iff_of_resolved hplanted hresolved).mpr ⟨hfits, hnode⟩

/-- What the package gives for the name of its file, and for one that leads to the file beside it. -/
theorem get?_packagedHost :
    (Lookup.package "p").get? packagedHost "./data.txt" = .ok (some (⟨.slash, ["pkgs", "p", "data.txt"]⟩ : Path).uri) ∧
      (Lookup.package "p").get? packagedHost "../secret.txt" = .ok (some (⟨.slash, ["pkgs", "secret.txt"]⟩ : Path).uri) := by
  have hdata : packagedHost.files.stat [] ⟨.slash, ["pkgs", "p", "data.txt"]⟩ = .ok (.file [0x64]) :=
    stat_packagedHost ⟨by decide, by decide⟩ rfl
  have hwalks : packagedHost.files.Walks true maxLinks [] ["pkgs", "p", "..", "secret.txt"] ["pkgs", "secret.txt"] := by
    refine .name rfl ⟨by decide, by decide⟩ (by decide) rfl nofun ?_
    refine .name rfl ⟨by decide, by decide⟩ (by decide) rfl nofun ?_
    exact .back rfl (.one rfl ⟨by decide, by decide⟩ (by decide) (.inr (noLink_packagedHost _)))
  have hsecret : packagedHost.files.stat [] ⟨.slash, ["pkgs", "p", "..", "secret.txt"]⟩ = .ok (.file [0x73]) :=
    FileSystem.stat_eq_ok_iff.mpr ⟨_, FileSystem.locate_eq_ok_iff.mpr ⟨⟨by decide, by decide⟩, hwalks⟩, rfl⟩
  have hname {l : Location} {n : String} (hdot : n ≠ ".") (hback : n ≠ "..") : packagedHost.files.Leads l [n] (l ++ [n]) :=
    .name hdot hback (noLink_packagedHost _) .here
  constructor
  · exact (get?_package_iff orderly_packagedHost packageDirectory?_packagedHost).mpr
      ⟨by decide, _, ⟨⟨_, hdata⟩, hname (by decide) (by decide)⟩, rfl⟩
  · exact (get?_package_iff orderly_packagedHost packageDirectory?_packagedHost).mpr
      ⟨by decide, _, ⟨⟨_, hsecret⟩, .back rfl (hname (by decide) (by decide))⟩, rfl⟩

theorem lookup_stays_below_data :
    let lookup : Lookup := .chain [.package "q", .package "p"]
    packagedHost.Orderly ∧ Confined packagedHost lookup ∧ FileSystem.climbs 0 (Path.ofText "./data.txt").names = false ∧
      lookup.get? packagedHost "./data.txt" = .ok (some (⟨.slash, ["pkgs", "p", "data.txt"]⟩ : Path).uri) ∧
      ∃ l bs, Covers packagedHost lookup l ∧ packagedHost.files.content? l = some bs ∧
        Address.file packagedHost.here (⟨.slash, ["pkgs", "p", "data.txt"]⟩ : Path).uri = .ok ⟨.slash, l⟩ := by
  intro lookup
  have hother : (Lookup.package "q").get? packagedHost "./data.txt" = .ok none := rfl
  have hget : lookup.get? packagedHost "./data.txt" = .ok (some (⟨.slash, ["pkgs", "p", "data.txt"]⟩ : Path).uri) := by
    rw [get?, getFirst?, hother, getFirst?, get?_packagedHost.1]
  obtain ⟨-, hconfined⟩ := lookup_stays_below orderly_packagedHost "./data.txt"
  obtain ⟨hfile, -⟩ := hconfined lookup confined_packagedHost (by decide)
  exact ⟨orderly_packagedHost, confined_packagedHost, by decide, hget, hfile _ hget⟩

/-- A name that climbs leads out of a package. -/
theorem package_left_by_name :
    packagedHost.Orderly ∧ Confined packagedHost (.package "p") ∧ packageDirectory? packagedHost "p" = some ["pkgs", "p"] ∧
      (Lookup.package "p").get? packagedHost "../secret.txt" = .ok (some (⟨.slash, ["pkgs", "secret.txt"]⟩ : Path).uri) ∧
      (Lookup.package "p").open? packagedHost "../secret.txt" = .ok (some [0x73]) ∧
      ¬Covers packagedHost (.package "p") ["pkgs", "secret.txt"] := by
  have hread : packagedHost.files.read [] ⟨.slash, ["pkgs", "secret.txt"]⟩ = .ok [0x73] :=
    FileSystem.read_eq_ok_iff.mpr (FileSystem.stat_eq_ok_iff.mp (stat_packagedHost ⟨by decide, by decide⟩ rfl))
  have hnames : Path.AreNames ["pkgs", "secret.txt"] :=
    (orderly_packagedHost.planted.resolved (by decide) (noLink_packagedHost _)).names
  have hopen : (Lookup.package "p").open? packagedHost "../secret.txt" = .ok (some [0x73]) := by
    rw [open?]
    exact openOne_of_get? hnames get?_packagedHost.2 hread
  refine ⟨orderly_packagedHost, .package "p" fun dir _ l _ => noLink_packagedHost l, packageDirectory?_packagedHost,
    get?_packagedHost.2, hopen, ?_⟩
  rintro ⟨hdir, hpre⟩
  obtain rfl := Option.some.inj (packageDirectory?_packagedHost.symm.trans hdir)
  exact absurd hpre (by decide)

end Lookup

end ScriptLoader
