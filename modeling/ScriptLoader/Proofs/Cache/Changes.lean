import ScriptLoader.Proofs.Cache.Disk

/-!
# What a disk cache changes over time

Write after write, a disk cache changes files in its directory, and makes the directory and those above it where they are missing
(`Change`, `Changes.put`). A walk afterwards ends where the names led to before, or at a file that the cache has written
(`Changes.leads`). So what is read at the path of an entry was there from the start or has been written (`Changes.read`), whatever links the
directory held.
-/

namespace ScriptLoader.Cache

open Files FileSystem

/-- What a cache in the directory `d` has changed at a location. The bytes that it has written are `fine`. -/
inductive Change (d : Path) (cwd : Location) (fine : Bytes → Prop) (fs fs' : FileSystem) (l : Location) : Prop where
  | same (same : fs'.node? l = fs.node? l)
  | made {ns : List String} (missing : fs.node? l = none) (made : fs'.node? l = some .directory) (part : ns <+: d.names)
      (leads : fs.Leads (d.start cwd) ns l)
  | written {bs : Bytes} {loc : Location} {n : String} (fine : fine bs) (written : fs'.node? l = some (.file bs))
      (free : fs.node? l ≠ some .directory) (leads : fs.Leads (d.start cwd) d.names loc) (child : l = loc ++ [n])

/-- What a cache in the directory `d` has changed. -/
def Changes (d : Path) (cwd : Location) (fine : Bytes → Prop) (fs fs' : FileSystem) : Prop := ∀ l, Change d cwd fine fs fs' l

variable {d p : Path} {cwd : Location} {fine fine' : Bytes → Prop} {fs fs' fs'' : FileSystem} {l : Location}

theorem Change.of_same (h : Change d cwd fine fs fs' l) (hsame : fs''.node? l = fs'.node? l) : Change d cwd fine fs fs'' l := by
  cases h with
  | same same => exact .same (hsame.trans same)
  | made missing made part leads => exact .made missing (hsame.trans made) part leads
  | written fine written free leads child => exact .written fine (hsame.trans written) free leads child

/-- Where nothing is, nothing was. -/
theorem Change.missing (h : Change d cwd fine fs fs' l) (hnone : fs'.node? l = none) : fs.node? l = none := by
  cases h with
  | same same => rw [← same, hnone]
  | made missing => exact missing
  | written _ written => simp [hnone] at written

/-- Where a link is, it was. -/
theorem Change.link (h : Change d cwd fine fs fs' l) {target : String} (hlink : fs'.node? l = some (.link target)) :
    fs.node? l = some (.link target) := by
  cases h with
  | same same => rw [← same, hlink]
  | made _ made => simp [hlink] at made
  | written _ written => simp [hlink] at written

/-- Where something else than a link is, there was no link, or a file has been written. -/
theorem Change.noLink (h : Change d cwd fine fs fs' l) (hno : ∀ target, fs'.node? l ≠ some (.link target)) :
    (∀ target, fs.node? l ≠ some (.link target)) ∨ ∃ bs, fine bs ∧ fs'.node? l = some (.file bs) := by
  cases h with
  | same same => exact .inl fun target => same ▸ hno target
  | made missing => exact .inl (by simp [missing])
  | written fine written => exact .inr ⟨_, fine, written⟩

namespace Changes

theorem refl (d : Path) (cwd : Location) (fine : Bytes → Prop) (fs : FileSystem) : Changes d cwd fine fs fs := fun _ => .same rfl

theorem mono (h : Changes d cwd fine fs fs') (hfine : ∀ bs, fine bs → fine' bs) : Changes d cwd fine' fs fs' := by
  intro l
  cases h l with
  | same same => exact .same same
  | made missing made part leads => exact .made missing made part leads
  | written fine written free leads child => exact .written (hfine _ fine) written free leads child

theorem of_same (h : Changes d cwd fine fs fs') (hsame : ∀ l, fs''.node? l = fs'.node? l) : Changes d cwd fine fs fs'' :=
  fun l => (h l).of_same (hsame l)

/-- A walk ends where the names led to from the start, or at a file that has been written. -/
theorem leads (h : Changes d cwd fine fs fs') {k : Nat} {here : Location} {ns : List String} (hw : fs'.Walks true k here ns l) :
    fs.Leads here ns l ∨ ∃ bs, fine bs ∧ fs'.node? l = some (.file bs) := by
  induction hw with
  | here => exact .inl .here
  | dot _ _ ih => exact ih.imp_left (.dot rfl)
  | back _ _ ih => exact ih.imp_left (.back rfl)
  | @fresh _ here n _ hn _ hnode =>
    have hnone := (h (here ++ [n])).missing hnode
    exact .inl (.name hn.dot hn.back (by simp [hnone]) .here)
  | stay _ _ _ _ hstay => cases hstay
  | @link _ here _ n _ _ _ hn _ hnode _ _ ih =>
    exact ih.imp_left (.link hn.dot hn.back ((h (here ++ [n])).link hnode))
  | @name _ here _ n ns node _ hn _ hnode hlink rest ih =>
    rcases (h (here ++ [n])).noLink fun target ht => hlink target (Option.some.inj (hnode.symm.trans ht)) with hno | hwritten
    · exact ih.imp_left (.name hn.dot hn.back hno)
    · cases ns with
      | nil =>
        cases rest
        exact .inr hwritten
      | cons m ns =>
        obtain ⟨bs, -, hfile⟩ := hwritten
        exact absurd (hfile.symm.trans rest.directory) (by simp)

/-- A path that leads to a directory led there from the start. -/
theorem leads_of_leadsInto (h : Changes d cwd fine fs fs') (hinto : LeadsInto fs' cwd p l) : fs.Leads (p.start cwd) p.names l := by
  rcases h.leads (locate_eq_ok_iff.mp hinto.1).2 with hleads | ⟨bs, -, hfile⟩
  · exact hleads
  · exact absurd (hfile.symm.trans hinto.2) (by simp)

/-- Where the directory holds no links, no way is lost. -/
theorem keepsWays (h : Changes d cwd fine fs fs')
    (hplain : ∀ loc n target, fs.Leads (d.start cwd) d.names loc → fs.node? (loc ++ [n]) ≠ some (.link target)) : KeepsWays fs fs' := by
  refine ⟨fun l hdir => ?_, fun l target => ⟨fun hlink => ?_, fun hlink => (h l).link hlink⟩⟩
  · cases h l with
    | same same => rw [same, hdir]
    | made missing => simp [hdir] at missing
    | written _ _ free => exact absurd hdir free
  · cases h l with
    | same same => rw [same, hlink]
    | made missing => simp [hlink] at missing
    | written _ _ _ leads child => exact absurd (child ▸ hlink) (hplain _ _ target leads)

/-! ## Writes -/

theorem makeDirectory (h : Changes d cwd fine fs fs') (hroot : p.root = d.root) (hnames : p.names <+: d.names)
    (hmade : fs'.makeDirectory cwd p = .ok fs'') : Changes d cwd fine fs fs'' := by
  obtain ⟨place, hplace, hnone, rfl⟩ := makeDirectory_eq_ok_iff.mp hmade
  have hstart : p.start cwd = d.start cwd := by
    unfold Path.start Path.isAbsolute
    rw [hroot]
  intro l
  have hset := node?_set_of_none hnone .directory l
  by_cases hl : l = place
  · rw [if_pos hl] at hset
    subst hl
    rcases h.leads ((locate_eq_ok_iff.mp hplace).2.followed (by simp [hnone])) with hleads | ⟨bs, -, hfile⟩
    · exact .made ((h l).missing hnone) hset hnames (hstart ▸ hleads)
    · exact absurd (hfile.symm.trans hnone) (by simp)
  · rw [if_neg hl] at hset
    exact (h l).of_same hset

theorem ensureDirectory (h : Changes d cwd fine fs fs') (hroot : p.root = d.root) (hnames : p.names <+: d.names)
    (hmade : fs'.ensureDirectory cwd p = .ok fs'') : Changes d cwd fine fs fs'' := by
  rw [FileSystem.ensureDirectory] at hmade
  split at hmade
  · rename_i made hmake
    obtain rfl := Except.ok.inj hmade
    exact h.makeDirectory hroot hnames hmake
  · split at hmade
    · rw [← Except.ok.inj hmade]
      exact h
    · cases hmade

/-- The directory of the cache, or one above it, is made. -/
theorem ensureDirectories (h : Changes d cwd fine fs fs') (hroot : p.root = d.root) (hnames : p.names <+: d.names) :
    Changes d cwd fine fs (fs'.ensureDirectories cwd p).1 := by
  have habove {p : Path} (hnames : p.names <+: d.names) : p.parent.names <+: d.names := (List.dropLast_prefix _).trans hnames
  fun_induction FileSystem.ensureDirectories fs' cwd p with
  | case1 _ _ hmake => exact h.makeDirectory hroot hnames hmake
  | case2 => exact h
  | case3 _ _ _ _ _ hparent ih =>
    have hmade := ih hroot (habove hnames)
    rwa [hparent] at hmade
  | case4 _ _ _ _ hparent _ hself ih =>
    have hmade := ih hroot (habove hnames)
    rw [hparent] at hmade
    exact hmade.ensureDirectory hroot hnames hself
  | case5 _ _ _ _ hparent _ _ ih =>
    have hmade := ih hroot (habove hnames)
    rwa [hparent] at hmade
  | case6 => exact h

/-- An entry is moved into its place. -/
theorem holds (h : Changes d cwd fine fs fs') {loc : Location} {s : Source} {bs : Bytes} (hbs : fine bs)
    (hinto : LeadsInto fs' cwd d loc) (hfree : fs'.node? (entryAt loc s) ≠ some .directory)
    (hholds : Holds fs' (entryAt loc s) bs fs'') : Changes d cwd fine fs fs'' := by
  intro l
  by_cases hl : l = entryAt loc s
  · subst hl
    have hbefore : fs.node? (entryAt loc s) ≠ some .directory := by
      cases h (entryAt loc s) with
      | same same => exact same ▸ hfree
      | made missing => simp [missing]
      | written _ _ free => exact free
    exact .written hbs hholds.node? hbefore (h.leads_of_leadsInto hinto) rfl
  · refine (h l).of_same ?_
    rw [hholds l, if_neg hl]

/-- A write, whatever comes of it. -/
theorem put {h h' : Host} {s : Source} {code : String} {r : Except Failure Unit} (hchanges : Changes d h.cwd fine h.files h'.files)
    (hcwd : h'.cwd = h.cwd) (hfine : fine (Entry.ofSource s code).bytes) (hput : PutResult h' d s code (fs, r)) :
    Changes d h.cwd fine h.files fs := by
  have hensured := hchanges.ensureDirectories (p := d) rfl (List.prefix_refl _)
  cases hput with
  | stored made into free holds =>
    rw [hcwd] at made into
    rw [made] at hensured
    exact hensured.holds hfine into free holds
  | refused made same =>
    rw [hcwd] at made
    rcases made with rfl | rfl
    · exact hchanges.of_same same
    · exact hensured.of_same same

/-! ## Reads -/

/-- What is read at a path was there from the start or has been written. -/
theorem read (h : Changes d cwd fine fs fs') {bs : Bytes} (hread : fs'.read cwd p = .ok bs) :
    fine bs ∨ ∃ l, fs.Leads (p.start cwd) p.names l ∧ fs.node? l = some (.file bs) := by
  obtain ⟨l, hl, hnode⟩ := read_eq_ok_iff.mp hread
  rcases h.leads (locate_eq_ok_iff.mp hl).2 with hleads | ⟨bs', hfine, hfile⟩
  · cases h l with
    | same same => exact .inr ⟨l, hleads, same ▸ hnode⟩
    | made _ made => simp [hnode] at made
    | written fine written =>
      obtain rfl := Node.file.inj (Option.some.inj (hnode.symm.trans written))
      exact .inl fine
  · obtain rfl := Node.file.inj (Option.some.inj (hnode.symm.trans hfile))
    exact .inl hfine

end Changes

end ScriptLoader.Cache
