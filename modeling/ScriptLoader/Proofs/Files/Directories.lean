import ScriptLoader.Proofs.Files.Links

/-!
# What directories that are made change

Directories that are made where nothing was leave every read as it is that does not end at a missing name (`read_of_grows`). Where
the path of the directories has no `..` and no name that is too long, either nothing is made, or the path leads to a directory that is
empty (`ensureDirectories_cases`), and then reads in this directory are as they were too (`read_ensureDirectories`).
-/

namespace ScriptLoader.Files.FileSystem

variable {fs fs' : FileSystem} {follow : Bool} {k : Nat} {l l' cwd : Location} {n : String} {ns ms : List String} {p : Path}

/-! ## Walks and reads that fail -/

theorem Grows.node (h : Grows fs fs') {node : Node} (hnode : fs.node? l = some node) : fs'.node? l = some node := by
  rcases h l with hl | ⟨hnone, -⟩
  · rw [hl, hnode]
  · rw [hnone] at hnode
    cases hnode

/-- A walk that fails gets no further along more names; and if it fails for another reason than a missing name, no further either when more
directories are there. -/
theorem walk_append_of_grows (h : Grows fs fs') {f : Fault} (hwalk : fs.walk true k l ns = .error f) (hf : f ≠ .notFound ∨ fs' = fs)
    (ms : List String) : fs'.walk true k l (ns ++ ms) = .error f := by
  fun_induction walk fs true k l ns with
  | case1 => cases hwalk
  | case2 _ _ _ _ hnode =>
    obtain rfl := Except.error.inj hwalk
    obtain rfl := hf.resolve_left (· rfl)
    rw [List.cons_append, walk, hnode]
  | case3 _ _ _ _ _ hnode => rw [List.cons_append, walk, h.node hnode, ← hwalk]
  | case4 _ _ _ _ _ hnode => rw [List.cons_append, walk, h.node hnode, ← hwalk]
  | case5 _ _ _ hdir ih => rw [List.cons_append, walk, h.node hdir]; simpa using ih hwalk
  | case6 _ _ _ hdir _ ih => rw [List.cons_append, walk, h.node hdir]; simpa using ih hwalk
  | case7 _ _ _ _ hdir hdot hback hlen =>
    rw [List.cons_append, walk, h.node hdir]
    simp only [if_neg hdot, if_neg hback, if_pos hlen, hwalk]
  | case8 => cases hwalk
  | case9 _ _ _ _ hdir hdot hback hlen hnode hlast =>
    obtain rfl := Except.error.inj hwalk
    obtain rfl := hf.resolve_left (· rfl)
    rw [List.cons_append, walk, hdir]
    simp only [if_neg hdot, if_neg hback, if_neg hlen, hnode]
    rw [if_neg (by simp_all)]
  | case10 => cases hwalk
  | case11 _ _ _ hdir hdot hback hlen target hnode hlast =>
    rw [List.cons_append, walk, h.node hdir]
    simp only [if_neg hdot, if_neg hback, if_neg hlen, h.node hnode]
    rw [if_neg (by simp), hwalk]
  | case12 _ _ _ hdir hdot hback hlen target hnode hlast _ ih =>
    rw [List.cons_append, walk, h.node hdir]
    simp only [if_neg hdot, if_neg hback, if_neg hlen, h.node hnode]
    rw [if_neg (by simp), ← List.append_assoc, ih hwalk]
  | case13 _ _ _ _ hdir hdot hback hlen node hlink hnode ih =>
    rw [List.cons_append, walk, h.node hdir]
    simp only [if_neg hdot, if_neg hback, if_neg hlen, h.node hnode]
    cases node with
    | link target => exact absurd rfl (hlink target)
    | file => exact ih hwalk
    | directory => exact ih hwalk

/-- Behind a place where nothing is, nothing is found. -/
theorem Walks.notFound_snoc (h : fs.Walks follow k l ns l') (hnode : fs.node? l' = none) (n : String) :
    fs.walk true k l (ns ++ [n]) = .error .notFound := by
  induction h with
  | here => rw [List.nil_append, FileSystem.walk, hnode]
  | dot hdir _ ih => rw [List.cons_append, FileSystem.walk, hdir]; simpa using ih hnode
  | back hdir _ ih => rw [List.cons_append, FileSystem.walk, hdir]; simpa using ih hnode
  | fresh hdir hn hlen hmissing =>
    rw [List.cons_append, FileSystem.walk, hdir]
    simp [hn.dot, hn.back, Nat.not_lt.mpr hlen, hmissing]
  | stay _ _ _ hlink => rw [hlink] at hnode; cases hnode
  | link hdir hn hlen hlink _ _ ih =>
    rw [List.cons_append, FileSystem.walk, hdir]
    simp only [if_neg hn.dot, if_neg hn.back, if_neg (Nat.not_lt.mpr hlen), hlink]
    rw [if_neg (by simp), ← List.append_assoc, ih hnode]
  | @name _ _ _ _ _ node hdir hn hlen hsome hlink _ ih =>
    rw [List.cons_append, FileSystem.walk, hdir]
    simp only [if_neg hn.dot, if_neg hn.back, if_neg (Nat.not_lt.mpr hlen), hsome]
    cases node with
    | link target => exact absurd rfl (hlink target)
    | file => exact ih hnode
    | directory => exact ih hnode

/-- What a walk fails with, a read fails with. -/
theorem read_of_walk_error {f : Fault} (hfits : p.Fits) (hwalk : fs.walk true maxLinks (p.start cwd) p.names = .error f) :
    fs.read cwd p = .error (.system f) := by
  rw [Path.start] at hwalk
  have hlocate : fs.locate true cwd p = .error (.system f) := by
    rw [locate, hfits.nul, if_neg Bool.false_ne_true, if_neg (Nat.not_lt.mpr hfits.length), hwalk]
    rfl
  rw [read, stat, hlocate]
  rfl

/-- What is found stays where more directories are made, and so does the reason why nothing is, unless a name is missing. -/
theorem read_of_grows (h : Grows fs fs') (cwd : Location) (p : Path) :
    fs.read cwd p = .error (.system .notFound) ∨ fs'.read cwd p = fs.read cwd p := by
  cases hlocate : fs.locate true cwd p with
  | ok l =>
    have hlocate' := locate_of_keepsWays hlocate h.keepsWays
    simp only [read, stat, hlocate, hlocate', Bind.bind, Except.bind]
    cases hnode : fs.node? l with
    | none => exact .inl rfl
    | some node => exact .inr (by rw [h.node hnode])
  | error f =>
    by_cases hf : f = .system .notFound
    · exact .inl (by rw [read, stat, hlocate, hf]; rfl)
    · have hlocate' : fs'.locate true cwd p = .error f := by
        unfold locate at hlocate ⊢
        split
        · rwa [if_pos ‹_›] at hlocate
        · rw [if_neg ‹_›] at hlocate
          split
          · rwa [if_pos ‹_›] at hlocate
          · rw [if_neg ‹_›] at hlocate
            obtain ⟨fault, hwalk, rfl⟩ := mapError_eq_error_iff.mp hlocate
            have hwalk' := walk_append_of_grows h hwalk (.inl fun hfault => hf (congrArg PathFault.system hfault)) []
            rw [List.append_nil] at hwalk'
            rw [hwalk']
            rfl
      have hread {gs : FileSystem} (hl : gs.locate true cwd p = .error f) : gs.read cwd p = .error f := by
        rw [read, stat, hl]
        rfl
      exact .inr ((hread hlocate').trans (hread hlocate).symm)

/-- File systems with the same nodes are read alike. -/
theorem read_of_same (h : ∀ l, fs'.node? l = fs.node? l) (cwd : Location) (p : Path) : fs'.read cwd p = fs.read cwd p := by
  have hgrows : Grows fs fs' := fun l => .inl (h l)
  have hshrinks : Grows fs' fs := fun l => .inl (h l).symm
  rcases read_of_grows hgrows cwd p with hmissing | hread
  · rcases read_of_grows hshrinks cwd p with hmissing' | hread
    · rw [hmissing, hmissing']
    · exact hread.symm
  · exact hread

/-! ## Directories that are made -/

/-- Names that a directory can be made under: none of them goes back, and none is too long. -/
def AreFresh (ns : List String) : Prop := ∀ n ∈ ns, Plain n ∧ n.utf8ByteSize ≤ maxName

/-- The path leads to a directory below which nothing is, and before it did not lead into any directory. -/
structure MadeNew (fs fs' : FileSystem) (cwd : Location) (p : Path) : Prop where
  into : ∃ l, fs'.locate true cwd p = .ok l ∧ fs'.node? l = some .directory ∧ ∀ ns ≠ [], fs'.node? (l ++ ns) = none
  missing : ∀ n, fs.walk true maxLinks (p.start cwd) (p.names ++ [n]) = .error .notFound

/-- Below a place where nothing is, nothing is. -/
theorem Planted.missing_below (h : fs.Planted) (hnone : fs.node? l = none) (ns : List String) : fs.node? (l ++ ns) = none := by
  induction ns using List.reverseRecOn with
  | nil => rw [List.append_nil, hnone]
  | append_singleton ns n ih =>
    by_contra hsome
    rw [← List.append_assoc] at hsome
    rw [h.parent _ _ hsome] at ih
    cases ih

/-- A directory that has just been made. -/
theorem madeNew_of_makeDirectory (h : fs.Planted) (hmade : fs.makeDirectory cwd p = .ok fs') : MadeNew fs fs' cwd p := by
  obtain ⟨l, hl, hnone, rfl⟩ := makeDirectory_eq_ok_iff.mp hmade
  obtain ⟨hfits, hwalks⟩ := locate_eq_ok_iff.mp hl
  have hset := node?_set_of_none hnone .directory
  refine ⟨⟨l, ?_, by rw [hset, if_pos rfl], fun ns hns => ?_⟩, hwalks.notFound_snoc hnone⟩
  · exact locate_of_keepsWays (locate_eq_ok_iff.mpr ⟨hfits, hwalks.followed (by simp [hnone])⟩) (grows_set hnone).keepsWays
  · rw [hset, if_neg (by simpa using hns)]
    exact h.missing_below hnone ns

/-- In a directory that is new, one more can be made. -/
theorem MadeNew.ensureDirectory {r : Root} (h : MadeNew fs fs' cwd ⟨r, ns⟩) (hfits : Path.Fits ⟨r, ns ++ [n]⟩) (hn : Plain n)
    (hlen : n.utf8ByteSize ≤ maxName) :
    ∃ fs'', fs'.ensureDirectory cwd ⟨r, ns ++ [n]⟩ = .ok fs'' ∧ MadeNew fs fs'' cwd ⟨r, ns ++ [n]⟩ := by
  obtain ⟨l, hl, hdir, hbelow⟩ := h.into
  have hnone : fs'.node? (l ++ [n]) = none := hbelow [n] (by simp)
  have hl' : fs'.locate false cwd ⟨r, ns ++ [n]⟩ = .ok (l ++ [n]) := locate_of_snoc hn hfits hl hdir hlen (.inl rfl)
  have hmade : fs'.makeDirectory cwd ⟨r, ns ++ [n]⟩ = .ok (fs'.set (l ++ [n]) .directory) :=
    makeDirectory_eq_ok_iff.mpr ⟨_, hl', hnone, rfl⟩
  have hset := node?_set_of_none hnone .directory
  refine ⟨_, by rw [FileSystem.ensureDirectory, hmade], ⟨_, ?_, by rw [hset, if_pos rfl], fun ms hms => ?_⟩, fun m => ?_⟩
  · refine locate_of_keepsWays ?_ (grows_set hnone).keepsWays
    exact locate_of_snoc hn hfits hl hdir hlen (.inr (by simp [hnone]))
  · rw [hset, if_neg (by simpa using hms), List.append_assoc]
    exact hbelow _ (by simp)
  · exact walk_append_of_grows (.refl fs) (h.missing n) (.inr rfl) [m]

/-- A directory is not made for want of another one only if the system takes its path. -/
theorem fits_of_makeDirectory_notFound (hmake : fs.makeDirectory cwd p = .error (.system .notFound)) : p.Fits := by
  by_contra hfits
  refine locate_ne_notFound_of_not_fits fs cwd false hfits ?_
  rcases bind_eq_error_iff.mp hmake with hlocate | ⟨l, -, hnode⟩
  · exact hlocate
  · split at hnode <;> simp at hnode

/-- Where no name of the path goes back or is too long, the directories of the path are made all together or not at all. -/
theorem ensureDirectories_cases (h : fs.Planted) (cwd : Location) (hp : AreFresh p.names) :
    (fs.ensureDirectories cwd p).1 = fs ∨
      ((fs.ensureDirectories cwd p).2 = none ∧ MadeNew fs (fs.ensureDirectories cwd p).1 cwd p) := by
  have hparent {p : Path} (hp : AreFresh p.names) : AreFresh p.parent.names := fun n hn => hp n (List.dropLast_subset _ hn)
  -- behind a parent that is new, the last directory is made
  have hlast {p : Path} {made : FileSystem} (hp : AreFresh p.names) (hmake : fs.makeDirectory cwd p = .error (.system .notFound))
      (hne : ¬p.names.isEmpty = true) (hnew : MadeNew fs made cwd p.parent) :
      ∃ fs'', made.ensureDirectory cwd p = .ok fs'' ∧ MadeNew fs fs'' cwd p := by
    obtain ⟨r, names⟩ := p
    obtain ⟨ns, n, rfl⟩ : ∃ ns n, names = ns ++ [n] := by
      rcases List.eq_nil_or_concat names with rfl | ⟨ns, n, rfl⟩
      · exact absurd rfl hne
      · exact ⟨ns, n, List.concat_eq_append⟩
    obtain ⟨hn, hlen⟩ := hp n (by simp)
    rw [Path.parent, List.dropLast_concat] at hnew
    exact hnew.ensureDirectory (fits_of_makeDirectory_notFound hmake) hn hlen
  fun_induction ensureDirectories fs cwd p with
  | case1 _ _ hmade => exact .inr ⟨rfl, madeNew_of_makeDirectory h hmade⟩
  | case2 => exact .inl rfl
  | case3 p _ _ made f hmade ih =>
    rw [hmade] at ih
    rcases ih (hparent hp) with hsame | ⟨hnone, -⟩
    · exact .inl hsame
    · cases hnone
  | case4 p hmake hne made hmade fs'' hself ih =>
    rw [hmade] at ih
    rcases ih (hparent hp) with hsame | ⟨-, hnew⟩
    · obtain rfl : made = fs := hsame
      rw [FileSystem.ensureDirectory, hmake] at hself
      simp only at hself
      split at hself
      · exact .inl (Except.ok.inj hself).symm
      · cases hself
    · obtain ⟨fs₂, hok, hnew'⟩ := hlast hp hmake hne hnew
      obtain rfl := Except.ok.inj (hok.symm.trans hself)
      exact .inr ⟨rfl, hnew'⟩
  | case5 p hmake hne made hmade f hself ih =>
    rw [hmade] at ih
    rcases ih (hparent hp) with hsame | ⟨-, hnew⟩
    · exact .inl hsame
    · obtain ⟨fs₂, hok, -⟩ := hlast hp hmake hne hnew
      cases hok.symm.trans hself
  | case6 => exact .inl rfl

/-- In the directory that a path leads to, the same is read after the directories of the path have been made, and if they cannot be made. -/
theorem read_ensureDirectories {r : Root} (h : fs.Planted) (cwd : Location) (hns : AreFresh ns) (hn : Plain n)
    (hlen : n.utf8ByteSize ≤ maxName) :
    (fs.ensureDirectories cwd ⟨r, ns⟩).1.read cwd ⟨r, ns ++ [n]⟩ = fs.read cwd ⟨r, ns ++ [n]⟩ := by
  by_cases hfits : Path.Fits ⟨r, ns ++ [n]⟩
  · rcases ensureDirectories_cases (p := ⟨r, ns⟩) h cwd hns with hsame | ⟨-, hnew⟩
    · rw [hsame]
    generalize (fs.ensureDirectories cwd ⟨r, ns⟩).1 = made at hnew
    -- before, the directory was missing, and now its entry is
    obtain ⟨l, hl, hdir, hbelow⟩ := hnew.into
    have hnone : made.node? (l ++ [n]) = none := hbelow [n] (by simp)
    have hafter : made.locate true cwd ⟨r, ns ++ [n]⟩ = .ok (l ++ [n]) :=
      locate_of_snoc hn hfits hl hdir hlen (.inr (by simp [hnone]))
    have hbefore : fs.read cwd ⟨r, ns ++ [n]⟩ = .error (.system .notFound) := read_of_walk_error hfits (hnew.missing n)
    rw [hbefore]
    simp only [read, stat, hafter, Bind.bind, Except.bind, hnone]
  · rcases read_of_grows (grows_ensureDirectories fs cwd ⟨r, ns⟩) cwd ⟨r, ns ++ [n]⟩ with hmissing | hread
    · rcases bind_eq_error_iff.mp hmissing with hstat | ⟨node, hstat, -⟩
      · rcases bind_eq_error_iff.mp hstat with hlocate | ⟨l, hlocate, -⟩
        · exact absurd hlocate (locate_ne_notFound_of_not_fits fs cwd true hfits)
        · exact absurd (locate_eq_ok_iff.mp hlocate).1 hfits
      · obtain ⟨l, hlocate, -⟩ := stat_eq_ok_iff.mp hstat
        exact absurd (locate_eq_ok_iff.mp hlocate).1 hfits
    · exact hread

/-! ## Files that stay in order -/

/-- The files are as the system keeps them, and the working directory is one of them. -/
structure Kept (fs : FileSystem) (cwd : Location) : Prop where
  planted : fs.Planted
  cwd : fs.node? cwd = some .directory

theorem Planted.dropLast (h : fs.Planted) (hdir : fs.node? l = some .directory) : fs.node? l.dropLast = some .directory := by
  rcases List.eq_nil_or_concat l with rfl | ⟨l, n, rfl⟩
  · exact hdir
  · rw [List.concat_eq_append, List.dropLast_concat]
    exact h.parent l n (by simp [← List.concat_eq_append, hdir])

/-- A place where something can be put: a name in a directory. -/
structure Takes (fs : FileSystem) (l : Location) (n : String) : Prop where
  directory : fs.node? l = some .directory
  isName : Path.IsName n
  name : n.utf8ByteSize ≤ maxName ∧ '\x00' ∉ n.toList

/-- A walk that ends where nothing is ends at a name in a directory. -/
theorem Walks.takes (h : fs.Planted) (hw : fs.Walks follow k l ns l') (hl : fs.node? l = some .directory) (hns : Path.AreSteps ns)
    (hnul : NulFree ns) (hnone : fs.node? l' = none) : ∃ d n, l' = d ++ [n] ∧ fs.Takes d n := by
  have hrest {n : String} {ns : List String} (hnul : NulFree (n :: ns)) : NulFree ns :=
    hnul.of_subset fun m hm => List.mem_cons_of_mem _ hm
  induction hw with
  | here => rw [hl] at hnone; cases hnone
  | dot hdir _ ih => exact ih hdir hns.tail (hrest hnul) hnone
  | back hdir _ ih => exact ih (h.dropLast hdir) hns.tail (hrest hnul) hnone
  | @fresh _ l n hdir hn hlen =>
    exact ⟨l, n, rfl, hdir, hns.isName List.mem_cons_self hn.dot hn.back, hlen, hnul n List.mem_cons_self⟩
  | stay _ _ _ hnode => rw [hnode] at hnone; cases hnone
  | @link _ l _ n target ns hdir hn _ hnode _ _ ih =>
    refine ih ?_ ((areSteps_targetNames target).append hns.tail) ((nulFree_targetNames (h.links _ _ hnode)).append (hrest hnul)) hnone
    unfold targetStart
    split
    · rfl
    · exact hdir
  | @name _ _ _ _ ns _ hdir hn hlen hnode hlink rest ih =>
    cases ns with
    | nil =>
      cases rest
      rw [hnode] at hnone
      cases hnone
    | cons m ns => exact ih rest.directory hns.tail (hrest hnul) hnone

/-- Something other than a link is put under a name in a directory, and not in the place of a directory. -/
theorem Kept.put (h : fs.Kept cwd) (hl : fs.Takes l n) (hfree : fs.node? (l ++ [n]) ≠ some .directory) {node : Node}
    (hlink : ∀ target, node ≠ .link target) (hput : ∀ x, fs'.node? x = if x = l ++ [n] then some node else fs.node? x) :
    fs'.Kept cwd := by
  have hdirectory {x : Location} (hx : fs.node? x = some .directory) : fs'.node? x = some .directory := by
    have hne : x ≠ l ++ [n] := by
      rintro rfl
      exact hfree hx
    rw [hput, if_neg hne, hx]
  have hchild {a : Location} {b : String} (hsome : fs'.node? (a ++ [b]) ≠ none) :
      (a = l ∧ b = n) ∨ fs.node? (a ++ [b]) ≠ none := by
    by_cases heq : a ++ [b] = l ++ [n]
    · exact .inl ⟨(List.append_inj' heq rfl).1, (List.cons.inj (List.append_inj' heq rfl).2).1⟩
    · rw [hput, if_neg heq] at hsome
      exact .inr hsome
  refine ⟨⟨fun a b hsome => ?_, fun a b hsome => ?_, fun a b hsome => ?_, fun x target hnode => ?_⟩, hdirectory h.cwd⟩
  · rcases hchild hsome with ⟨rfl, -⟩ | hsome
    · exact hdirectory hl.directory
    · exact hdirectory (h.planted.parent a b hsome)
  · rcases hchild hsome with ⟨-, rfl⟩ | hsome
    · exact hl.isName
    · exact h.planted.isName a b hsome
  · rcases hchild hsome with ⟨-, rfl⟩ | hsome
    · exact hl.name
    · exact h.planted.name a b hsome
  · rw [hput] at hnode
    split at hnode
    · exact absurd (Option.some.inj hnode) (hlink target)
    · exact h.planted.links x target hnode

/-- What is no directory can be taken away. -/
theorem Kept.taken (h : fs.Kept cwd)
    (htaken : ∀ x, fs'.node? x = fs.node? x ∨ (fs'.node? x = none ∧ fs.node? x ≠ some .directory)) : fs'.Kept cwd := by
  have hdirectory {x : Location} (hx : fs.node? x = some .directory) : fs'.node? x = some .directory := by
    rcases htaken x with hsame | ⟨-, hno⟩
    · rw [hsame, hx]
    · exact absurd hx hno
  have hbefore {x : Location} {node : Node} (hnode : fs'.node? x = some node) : fs.node? x = some node := by
    rcases htaken x with hsame | ⟨hnone, -⟩
    · rw [← hsame, hnode]
    · rw [hnone] at hnode
      cases hnode
  have hsome {x : Location} (hx : fs'.node? x ≠ none) : fs.node? x ≠ none := by
    obtain ⟨node, hnode⟩ := Option.ne_none_iff_exists'.mp hx
    rw [hbefore hnode]
    nofun
  exact ⟨⟨fun a b hx => hdirectory (h.planted.parent a b (hsome hx)), fun a b hx => h.planted.isName a b (hsome hx),
    fun a b hx => h.planted.name a b (hsome hx), fun x target hnode => h.planted.links x target (hbefore hnode)⟩, hdirectory h.cwd⟩

theorem Kept.makeDirectory (h : fs.Kept cwd) (hp : Path.AreSteps p.names) (hmade : fs.makeDirectory cwd p = .ok fs') : fs'.Kept cwd := by
  obtain ⟨l, hl, hnone, rfl⟩ := makeDirectory_eq_ok_iff.mp hmade
  obtain ⟨hfits, hw⟩ := locate_eq_ok_iff.mp hl
  have hstart : fs.node? (p.start cwd) = some .directory := by
    unfold Path.start
    split
    · rfl
    · exact h.cwd
  obtain ⟨d, n, rfl, htakes⟩ := hw.takes h.planted hstart hp (nulFree_iff.mp hfits.nul) hnone
  exact h.put htakes (by simp [hnone]) (fun _ => by simp) (node?_set_of_none hnone .directory)

theorem Kept.ensureDirectory (h : fs.Kept cwd) (hp : Path.AreSteps p.names) (hmade : fs.ensureDirectory cwd p = .ok fs') :
    fs'.Kept cwd := by
  rw [FileSystem.ensureDirectory] at hmade
  split at hmade
  · rename_i made hmake
    obtain rfl := Except.ok.inj hmade
    exact h.makeDirectory hp hmake
  · split at hmade
    · exact Except.ok.inj hmade ▸ h
    · cases hmade

theorem Kept.ensureDirectories (h : fs.Kept cwd) (hp : Path.AreSteps p.names) : (fs.ensureDirectories cwd p).1.Kept cwd := by
  have hparent {p : Path} (hp : Path.AreSteps p.names) : Path.AreSteps p.parent.names := fun n hn => hp n (List.dropLast_subset _ hn)
  fun_induction FileSystem.ensureDirectories fs cwd p with
  | case1 _ _ hmake => exact h.makeDirectory hp hmake
  | case2 => exact h
  | case3 _ _ _ _ _ hmade ih =>
    rw [hmade] at ih
    exact ih (hparent hp)
  | case4 _ _ _ _ hmade _ hself ih =>
    rw [hmade] at ih
    exact (ih (hparent hp)).ensureDirectory hp hself
  | case5 _ _ _ _ hmade _ _ ih =>
    rw [hmade] at ih
    exact ih (hparent hp)
  | case6 => exact h

end ScriptLoader.Files.FileSystem
