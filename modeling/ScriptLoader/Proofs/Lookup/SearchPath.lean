import ScriptLoader.Proofs.Files.Links
import ScriptLoader.Proofs.Lookup

/-!
# What a list of directories gives

A name is looked up in one directory after the other, and the first file that it leads to at or below its directory is given; what it
leads to elsewhere is passed over (`search_finds_first_below`). Two kinds of directories are not passed over but end the search: one
that holds a NUL, and one below which the name leads to a path that is too long to ask for (`search_hidden_by_nul`).
-/

namespace ScriptLoader

open Files

/-- The URI of a location is read as the location. -/
theorem Address.file_location {l : Location} (hl : Path.AreNames l) (cwd : Path) :
    Address.file cwd (⟨.slash, l⟩ : Path).uri = .ok ⟨.slash, l⟩ := by
  have hjoin : cwd.join ⟨.slash, l⟩ = ⟨.slash, l⟩ := rfl
  have hslash : (⟨.slash, l⟩ : Path).isAbsolute = true := rfl
  rw [Lookup.file_uri rfl, Path.ofText_text hl, Path.absolute, hjoin, Path.normalized, hslash, FileSystem.dropParents_of_areNames hl]
  rfl

/-- What is read at a directory that is seen from the root is seen from the root too. -/
theorem Path.join_join {p : Path} (hp : p.isAbsolute = true) (d q : Path) : d.join (p.join q) = p.join q := by
  refine if_pos ?_
  unfold join
  split
  · assumption
  · exact hp

/-- The files are as the system keeps them, and the working directory is written as a location. -/
structure Host.Orderly (h : Host) : Prop where
  planted : h.files.Planted
  cwd : Path.AreNames h.cwd
  nul : NulFree h.cwd

namespace Host

variable {h : Host} {p : Path} {l : Location}

theorem realPath_of_nul (hnul : ¬NulFree p.names) : h.realPath p = .error (.invalid nulReport) := by
  have hany : p.names.any (·.toList.contains '\x00') = true := by
    rw [← nulFree_iff, Bool.not_eq_false] at hnul
    exact hnul
  rw [realPath, FileSystem.realPath, if_pos hany]
  rfl

theorem Orderly.realPath_of_leads (ho : h.Orderly) (hp : Path.AreSteps p.names) (hfree : NulFree p.names)
    (hleads : h.files.Leads [] (h.here.join p).names l) : h.realPath p = .ok ⟨.slash, l⟩ := by
  rw [Host.realPath, FileSystem.realPath_of_leads ho.planted ho.cwd hp hfree hleads]
  rfl

/-- Every path without a NUL has a real path, to which its names lead; it has no links and no NUL. -/
theorem Orderly.realPath (ho : h.Orderly) (hloops : h.files.LoopFree) (hp : Path.AreSteps p.names) (hfree : NulFree p.names) :
    ∃ l, h.realPath p = .ok ⟨.slash, l⟩ ∧ h.files.Leads [] (h.here.join p).names l ∧ h.files.Resolved l ∧ NulFree l := by
  obtain ⟨l, hl⟩ := hloops (h.here.join p).names
  refine ⟨l, ho.realPath_of_leads hp hfree hl, hl, hl.resolved .root (Path.areSteps_join ho.cwd.areSteps hp), ?_⟩
  exact FileSystem.nulFree_realPath ho.planted.links ho.nul hfree (FileSystem.realPath_of_leads ho.planted ho.cwd hp hfree hl)

/-- The bytes of a file are read by its URI. -/
theorem bytesAt_location {bs : Bytes} (hl : Path.AreNames l) (hread : h.files.read h.cwd ⟨.slash, l⟩ = .ok bs) :
    Lookup.bytesAt h (⟨.slash, l⟩ : Path).uri = .ok (some bs) := by
  rw [Lookup.bytesAt, Address.file_location hl]
  simp only [mapError_ok, Bind.bind, Except.bind, fileBytes, hread]
  rfl

end Host

namespace Lookup

variable {h : Host} {name root url : String} {roots : List String} {l : Location}

/-! ## One directory -/

/-- From a directory the name leads to a location at or below it: on the way to both all links are followed. -/
def LeadsBelow (h : Host) (name root : String) (l : Location) : Prop :=
  ∃ top, h.files.Leads [] (h.here.join (Path.ofText root)).names top ∧
    h.files.Leads [] ((⟨.slash, top⟩ : Path).join (Path.ofText name)).names l ∧ top <+: l

/-- From a directory the name leads to a regular file at or below it. -/
def Finds (h : Host) (name root : String) (l : Location) (bs : Bytes) : Prop := LeadsBelow h name root l ∧ h.files.content? l = some bs

/-- The system takes a directory or what a name leads to below it for no path at all: there is a NUL in the one, or the other is too
long. -/
def Refused (h : Host) (name root : String) : Prop :=
  ¬NulFree (Path.ofText root).names ∨ ∃ l, LeadsBelow h name root l ∧ h.files.leadsToFile h.cwd ⟨.slash, l⟩ = .error .nameTooLong

theorem LeadsBelow.unique {l' : Location} (hl : LeadsBelow h name root l) (hl' : LeadsBelow h name root l') : l = l' := by
  obtain ⟨top, htop, hleads, -⟩ := hl
  obtain ⟨top', htop', hleads', -⟩ := hl'
  obtain rfl := htop.unique htop'
  exact hleads.unique hleads'

theorem LeadsBelow.resolved (hl : LeadsBelow h name root l) (hcwd : Path.AreNames h.cwd) : h.files.Resolved l := by
  obtain ⟨top, htop, hleads, -⟩ := hl
  have hroot : h.files.Resolved top := htop.resolved .root (Path.areSteps_join hcwd.areSteps (Path.areSteps_ofText root))
  exact hleads.resolved .root (Path.areSteps_join hroot.names.areSteps (Path.areSteps_ofText name))

/-- What a directory answers: a file that the name leads to below it, that there is none, or a failure. -/
inductive Answer (h : Host) (name root : String) : Except Failure (Option Path) → Prop where
  | file {l : Location} {bs : Bytes} (hfinds : Finds h name root l bs) (hread : h.files.read h.cwd ⟨.slash, l⟩ = .ok bs)
      (htaken : ¬Refused h name root) : Answer h name root (.ok (some ⟨.slash, l⟩))
  | nothing (hnot : ∀ l bs, ¬Finds h name root l bs) (htaken : ¬Refused h name root) : Answer h name root (.ok none)
  | failure {f : Failure} (hrefused : Refused h name root) : Answer h name root (.error f)

theorem answer_of_fileBelow? (ho : h.Orderly) (hloops : h.files.LoopFree) (hname : NulFree (Path.ofText name).names) (root : String) :
    Answer h name root (fileBelow? h name root) := by
  by_cases hfree : NulFree (Path.ofText root).names
  · obtain ⟨top, hreal, htop, hresolved, hnul⟩ := ho.realPath hloops (Path.areSteps_ofText root) hfree
    have hfree' : NulFree ((⟨.slash, top⟩ : Path).join (Path.ofText name)).names := by
      unfold Path.join
      split
      · exact hname
      · exact hnul.append hname
    have hsteps := Path.areSteps_join (p := ⟨.slash, top⟩) hresolved.names.areSteps (Path.areSteps_ofText name)
    obtain ⟨l, hreal', hl, hresolved', -⟩ := ho.realPath hloops hsteps hfree'
    rw [Path.join_join rfl] at hl
    rw [fileBelow?, hreal]
    simp only [Bind.bind, Except.bind, hreal']
    split
    · rename_i hpre
      have hbelow : LeadsBelow h name root l := ⟨top, htop, hl, List.isPrefixOf_iff_prefix.mp hpre⟩
      have htaken {b : Bool} (hok : h.files.leadsToFile h.cwd ⟨.slash, l⟩ = .ok b) : ¬Refused h name root := by
        rintro (hnul | ⟨l', hl', hlong⟩)
        · exact hnul hfree
        · rw [hl'.unique hbelow, hok] at hlong
          nomatch hlong
      rcases FileSystem.leadsToFile_of_resolved ho.planted hresolved' h.cwd with ⟨bs, hok, hbs, hread⟩ | ⟨hok, hnone⟩ | hlong
      · rw [hok]
        exact .file ⟨hbelow, hbs⟩ hread (htaken hok)
      · rw [hok]
        refine .nothing (fun l' bs hfinds => ?_) (htaken hok)
        obtain rfl := hfinds.1.unique hbelow
        rw [hfinds.2] at hnone
        nomatch hnone
      · rw [hlong]
        exact .failure (.inr ⟨l, hbelow, hlong⟩)
    · rename_i hpre
      have hnot (l' : Location) : ¬LeadsBelow h name root l' := by
        rintro ⟨top', htop', hl', hpre'⟩
        obtain rfl := htop.unique htop'
        obtain rfl := hl.unique hl'
        exact hpre (List.isPrefixOf_iff_prefix.mpr hpre')
      refine .nothing (fun l' bs hfinds => hnot l' hfinds.1) ?_
      rintro (hnul | ⟨l', hl', -⟩)
      · exact hnul hfree
      · exact hnot l' hl'
  · rw [fileBelow?, Host.realPath_of_nul hfree]
    exact .failure (.inl hfree)

theorem nulFree_of_fileBelow? {r : Option Path} (h' : fileBelow? h name root = .ok r) : NulFree (Path.ofText name).names := by
  obtain ⟨top, -, h'⟩ := bind_eq_ok_iff.mp h'
  obtain ⟨candidate, hreal, -⟩ := bind_eq_ok_iff.mp h'
  refine NulFree.of_join (p := top) ?_
  by_contra hnul
  rw [Host.realPath_of_nul hnul] at hreal
  nomatch hreal

/-! ## One directory after the other -/

theorem nulFree_of_searchFor (hfound : searchFor h name roots = .ok (some url)) : NulFree (Path.ofText name).names := by
  cases roots with
  | nil => cases hfound
  | cons root roots =>
    rw [searchFor] at hfound
    split at hfound
    · cases hfound
    · cases hfound
    · exact nulFree_of_fileBelow? ‹_›
    · exact nulFree_of_fileBelow? ‹_›

/-- Where one directory fails, nothing is found in the ones behind it. -/
theorem searchFor_of_failure {f : Failure} (hfails : fileBelow? h name root = .error f) :
    searchFor h name (root :: roots) ≠ .ok (some url) := by
  rw [searchFor, hfails]
  split <;> simp_all

theorem finds_of_searchFor (ho : h.Orderly) (hloops : h.files.LoopFree) (hfound : searchFor h name roots = .ok (some url)) :
    ∃ before root after l bs, roots = before ++ root :: after ∧ (∀ r ∈ before, ∀ l bs, ¬Finds h name r l bs) ∧
      Finds h name root l bs ∧ url = (⟨.slash, l⟩ : Path).uri ∧ h.files.read h.cwd ⟨.slash, l⟩ = .ok bs := by
  have hname := nulFree_of_searchFor hfound
  induction roots with
  | nil => nomatch hfound
  | cons root roots ih =>
    have hanswer := answer_of_fileBelow? ho hloops hname root
    generalize hbelow : fileBelow? h name root = answer at hanswer
    cases hanswer with
    | @file l bs hfinds hread =>
      rw [searchFor, hbelow] at hfound
      exact ⟨[], root, roots, l, bs, rfl, nofun, hfinds, (Option.some.inj (Except.ok.inj hfound)).symm, hread⟩
    | nothing hnot =>
      rw [searchFor, hbelow] at hfound
      obtain ⟨before, r, after, l, bs, rfl, hbefore, hfinds⟩ := ih hfound
      refine ⟨root :: before, r, after, l, bs, rfl, fun r' hr' => ?_, hfinds⟩
      rcases List.mem_cons.mp hr' with rfl | hr'
      · exact hnot
      · exact hbefore r' hr'
    | failure => exact absurd hfound (searchFor_of_failure hbelow)

/-- A file that the name leads to from a directory, and from none before it, is found just if the system takes all directories up to
this one, and what the name leads to below them. -/
theorem searchFor_eq_ok_iff (ho : h.Orderly) (hloops : h.files.LoopFree) (hname : NulFree (Path.ofText name).names)
    {before after : List String} {bs : Bytes} (hbefore : ∀ r ∈ before, ∀ l bs, ¬Finds h name r l bs) (hfinds : Finds h name root l bs) :
    searchFor h name (before ++ root :: after) = .ok (some (⟨.slash, l⟩ : Path).uri) ↔ ∀ r ∈ before ++ [root], ¬Refused h name r := by
  induction before with
  | nil =>
    have hanswer := answer_of_fileBelow? ho hloops hname root
    generalize hbelow : fileBelow? h name root = answer at hanswer
    simp only [List.nil_append, List.forall_mem_singleton]
    cases hanswer with
    | file hfinds' _ htaken =>
      obtain rfl := hfinds.1.unique hfinds'.1
      rw [searchFor, hbelow]
      exact iff_of_true rfl htaken
    | nothing hnot => exact absurd hfinds (hnot l bs)
    | failure hrefused => exact iff_of_false (searchFor_of_failure hbelow) (not_not_intro hrefused)
  | cons r before ih =>
    have hanswer := answer_of_fileBelow? ho hloops hname r
    generalize hbelow : fileBelow? h name r = answer at hanswer
    obtain ⟨hr, hbefore⟩ := List.forall_mem_cons.mp hbefore
    simp only [List.cons_append, List.forall_mem_cons]
    cases hanswer with
    | file hfinds' => exact absurd hfinds' (hr _ _)
    | nothing _ htaken =>
      rw [searchFor, hbelow]
      exact (ih hbefore).trans (iff_and_self.mpr fun _ => htaken)
    | failure hrefused => exact iff_of_false (searchFor_of_failure hbelow) fun hall => hall.1 hrefused

/-! ## The whole search -/

theorem isRelativeName_of_get? (hfound : (search roots).get? h name = .ok (some url)) :
    isRelativeName name = true ∧ searchFor h name roots = .ok (some url) := by
  rw [get?] at hfound
  split at hfound
  · exact ⟨‹_›, hfound⟩
  · cases hfound

/-- What is found as the URI of a file is opened as the file. -/
theorem openOne_of_get? {lookup : Lookup} {bs : Bytes} (hl : Path.AreNames l)
    (hget : lookup.get? h name = .ok (some (⟨.slash, l⟩ : Path).uri)) (hread : h.files.read h.cwd ⟨.slash, l⟩ = .ok bs) :
    openOne h name lookup = .ok (some bs) := by
  simp only [openOne, hget, Bind.bind, Except.bind]
  exact Host.bytesAt_location hl hread

/-- What a list of directories gives for a name is the URI of the file that the name leads to from the first directory from which it
leads to a file at or below the directory, all links followed; it is opened as this file. If there is such a directory, the file is
given just if no directory up to this one holds a NUL, and no path below one of them that the name leads to is too long. -/
theorem search_finds_first_below (ho : h.Orderly) (hloops : h.files.LoopFree) (name : String) (roots : List String) :
    (∀ url, (search roots).get? h name = .ok (some url) →
      ∃ before root after l bs, roots = before ++ root :: after ∧ (∀ r ∈ before, ∀ l bs, ¬Finds h name r l bs) ∧
        Finds h name root l bs ∧ Address.file h.here url = .ok ⟨.slash, l⟩ ∧ h.realPath ⟨.slash, l⟩ = .ok ⟨.slash, l⟩ ∧
        (search roots).open? h name = .ok (some bs)) ∧
      ∀ before root after l bs, roots = before ++ root :: after → (∀ r ∈ before, ∀ l bs, ¬Finds h name r l bs) →
        Finds h name root l bs → isRelativeName name = true → '\x00' ∉ name.toList →
        ((search roots).get? h name = .ok (some (⟨.slash, l⟩ : Path).uri) ↔ ∀ r ∈ before ++ [root], ¬Refused h name r) := by
  constructor
  · intro url hget
    obtain ⟨hrelative, hfound⟩ := isRelativeName_of_get? hget
    obtain ⟨before, root, after, l, bs, hroots, hbefore, hfinds, rfl, hread⟩ := finds_of_searchFor ho hloops hfound
    have hresolved := hfinds.1.resolved ho.cwd
    refine ⟨before, root, after, l, bs, hroots, hbefore, hfinds, Address.file_location hresolved.names h.here, ?_, ?_⟩
    · have hfree : NulFree l := ho.planted.nulFree (by simp [FileSystem.content?_eq_some_iff.mp hfinds.2])
      exact ho.realPath_of_leads hresolved.names.areSteps hfree hresolved.leads_self
    · rw [open?]
      exact openOne_of_get? hresolved.names hget hread
  · rintro before root after l bs rfl hbefore hfinds hrelative hnul
    rw [get?, if_pos hrelative]
    exact searchFor_eq_ok_iff ho hloops (Path.nulFree_ofText hnul) hbefore hfinds

/-- A library with a file that links from inside and outside of it lead to. -/
def linkedHost : Host :=
  { files := ⟨[(["lib"], .directory), (["lib", "a.ts"], .file [0x61]), (["lib", "b.ts"], .link "a.ts"), (["app"], .directory),
      (["app", "b.ts"], .link "../lib/a.ts")]⟩
    cwd := [], packageRoots := [], pages := [], run := fun fs _ _ _ _ => (.unavailable "", fs), trouble := fun _ => none }

theorem noLink_linkedHost {l : Location} (hl : l = ["lib"] ∨ l = ["app"] ∨ l = ["lib", "a.ts"]) (target : String) :
    linkedHost.files.node? l ≠ some (.link target) := by
  rcases hl with rfl | rfl | rfl <;> nofun

theorem leads_linkedHost {l : Location} {target : String} (hlink : (l, .link target) ∈ linkedHost.files.nodes) :
    linkedHost.files.Leads (targetStart target l.dropLast) (targetNames target) ["lib", "a.ts"] := by
  have hinside : targetNames "a.ts" = ["a.ts"] := by decide
  have houtside : targetNames "../lib/a.ts" = ["..", "lib", "a.ts"] := by decide
  have hfile (n : String) (hn : n = "a.ts") : linkedHost.files.Leads ["lib"] [n] ["lib", "a.ts"] := by
    subst hn
    exact .name (by decide) (by decide) (noLink_linkedHost (.inr (.inr rfl))) .here
  simp only [linkedHost, List.mem_cons, Prod.mk.injEq, reduceCtorEq, and_false, false_or, List.not_mem_nil, or_false] at hlink
  rcases hlink with ⟨rfl, htarget⟩ | ⟨rfl, htarget⟩
  · obtain rfl := Node.link.inj htarget
    rw [hinside]
    exact hfile "a.ts" rfl
  · obtain rfl := Node.link.inj htarget
    rw [houtside]
    exact .back rfl (.name (by decide) (by decide) (noLink_linkedHost (.inl rfl)) (hfile "a.ts" rfl))

theorem orderly_linkedHost : linkedHost.Orderly := ⟨FileSystem.planted_of_nodes (by decide), nofun, nofun⟩

theorem loopFree_linkedHost : linkedHost.files.LoopFree :=
  FileSystem.loopFree_of_nodes fun _ _ hlink => ⟨_, leads_linkedHost hlink⟩

/-- From both directories the name leads to the file in the library. -/
theorem leadsBelow_linkedHost {root : String} (hroot : root = "lib" ∨ root = "app") {l : Location} :
    LeadsBelow linkedHost "b.ts" root l ↔ root = "lib" ∧ l = ["lib", "a.ts"] := by
  have htop : linkedHost.files.Leads [] (linkedHost.here.join (Path.ofText root)).names [root] := by
    rcases hroot with rfl | rfl
    · exact .name (by decide) (by decide) (noLink_linkedHost (.inl rfl)) .here
    · exact .name (by decide) (by decide) (noLink_linkedHost (.inr (.inl rfl))) .here
  have hfile : linkedHost.files.Leads [] ((⟨.slash, [root]⟩ : Path).join (Path.ofText "b.ts")).names ["lib", "a.ts"] := by
    rcases hroot with rfl | rfl
    · have hlink := @leads_linkedHost ["lib", "b.ts"] "a.ts" (by decide)
      exact .name (by decide) (by decide) (noLink_linkedHost (.inl rfl)) (.link (by decide) (by decide) rfl (hlink.append .here))
    · have hlink := @leads_linkedHost ["app", "b.ts"] "../lib/a.ts" (by decide)
      exact .name (by decide) (by decide) (noLink_linkedHost (.inr (.inl rfl)))
        (.link (by decide) (by decide) rfl (hlink.append .here))
  constructor
  · rintro ⟨top, htop', hfile', hpre⟩
    obtain rfl := htop.unique htop'
    obtain rfl := hfile.unique hfile'
    refine ⟨?_, rfl⟩
    rcases hroot with rfl | rfl
    · rfl
    · exact absurd hpre (by decide)
  · rintro ⟨rfl, rfl⟩
    exact ⟨["lib"], htop, hfile, by decide⟩

/-- The link that leaves its directory is passed over, the one that stays in it is followed. -/
theorem search_finds_first_below_link :
    linkedHost.Orderly ∧ linkedHost.files.LoopFree ∧ (search ["app", "lib"]).get? linkedHost "b.ts" = .ok (some "file:///lib/a.ts") ∧
      (search ["app", "lib"]).open? linkedHost "b.ts" = .ok (some [0x61]) := by
  obtain ⟨hsound, hcomplete⟩ := search_finds_first_below orderly_linkedHost loopFree_linkedHost "b.ts" ["app", "lib"]
  have hlib : LeadsBelow linkedHost "b.ts" "lib" ["lib", "a.ts"] := (leadsBelow_linkedHost (.inl rfl)).mpr ⟨rfl, rfl⟩
  have happ (l : Location) : ¬LeadsBelow linkedHost "b.ts" "app" l := fun hl =>
    absurd ((leadsBelow_linkedHost (.inr rfl)).mp hl).1 (by decide)
  have hasked : linkedHost.files.leadsToFile [] ⟨.slash, ["lib", "a.ts"]⟩ = .ok true := by
    have hstat : linkedHost.files.stat [] ⟨.slash, ["lib", "a.ts"]⟩ = .ok (.file [0x61]) :=
      (FileSystem.stat_eq_ok_iff_of_resolved orderly_linkedHost.planted (hlib.resolved orderly_linkedHost.cwd)).mpr
        ⟨⟨by decide, by decide⟩, rfl⟩
    rw [FileSystem.leadsToFile, hstat]
  have htaken : ∀ r ∈ ["app"] ++ ["lib"], ¬Refused linkedHost "b.ts" r := by
    refine List.forall_mem_cons.mpr ⟨?_, List.forall_mem_singleton.mpr ?_⟩
    · rintro (hnul | ⟨l, hl, -⟩)
      · exact hnul (nulFree_iff.mp (by decide))
      · exact happ l hl
    · rintro (hnul | ⟨l, hl, hlong⟩)
      · exact hnul (nulFree_iff.mp (by decide))
      · obtain rfl := hl.unique hlib
        cases hasked.symm.trans hlong
  have hget : (search ["app", "lib"]).get? linkedHost "b.ts" = .ok (some "file:///lib/a.ts") :=
    (hcomplete ["app"] "lib" [] ["lib", "a.ts"] [0x61] rfl (by simpa using fun l bs hfinds => happ l hfinds.1) ⟨hlib, rfl⟩
      (by decide) (by decide)).mpr htaken
  obtain ⟨_, root, _, l, bs, hroots, -, ⟨hl, hbs⟩, -, -, hopen⟩ := hsound _ hget
  have hroot : root = "lib" ∨ root = "app" := by
    have hmem : root ∈ ["app", "lib"] := hroots ▸ List.mem_append_right _ List.mem_cons_self
    simpa [or_comm] using hmem
  obtain ⟨-, rfl⟩ := (leadsBelow_linkedHost hroot).mp hl
  obtain rfl : [0x61] = bs := Option.some.inj hbs
  exact ⟨orderly_linkedHost, loopFree_linkedHost, hget, hopen⟩

/-- A directory that holds a NUL hides the ones behind it. -/
theorem search_hidden_by_nul :
    linkedHost.Orderly ∧ linkedHost.files.LoopFree ∧ Finds linkedHost "b.ts" "lib" ["lib", "a.ts"] [0x61] ∧ isRelativeName "b.ts" = true ∧
      '\x00' ∉ "b.ts".toList ∧ (search ["a\x00b", "lib"]).get? linkedHost "b.ts" = .ok none := by
  refine ⟨orderly_linkedHost, loopFree_linkedHost, ⟨(leadsBelow_linkedHost (.inl rfl)).mpr ⟨rfl, rfl⟩, rfl⟩, by decide, by decide, ?_⟩
  have hnul : ¬NulFree (Path.ofText "a\x00b").names := fun hfree => hfree "a\x00b" (by decide) (by decide)
  rw [get?, if_pos (by decide), searchFor, fileBelow?, Host.realPath_of_nul hnul]
  rfl

end Lookup

end ScriptLoader
