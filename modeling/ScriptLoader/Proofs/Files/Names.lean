import ScriptLoader.Files.RealPath
import ScriptLoader.Proofs.Files.Access

/-!
# Paths that no system takes

The one reason to refuse a path that is no reason of the system is a NUL in it: an operation reports it just for a path that holds one
(`nul_of_locate`). Links cannot hold one, so real paths of paths without it are without it too (`nulFree_realPath`).
-/

namespace ScriptLoader

open Text

/-- None of the names holds a NUL. -/
def NulFree (ns : List String) : Prop := ∀ n ∈ ns, '\x00' ∉ n.toList

theorem nulFree_iff {ns : List String} : ns.any (·.toList.contains '\x00') = false ↔ NulFree ns := by
  simp [NulFree, List.any_eq_false]

theorem NulFree.of_subset {ns ms : List String} (h : NulFree ns) (hsub : ∀ m ∈ ms, m ∈ ns) : NulFree ms :=
  fun m hm => h m (hsub m hm)

theorem NulFree.append {ns ms : List String} (h : NulFree ns) (h' : NulFree ms) : NulFree (ns ++ ms) := by
  intro n hn
  rcases List.mem_append.mp hn with hn | hn
  · exact h n hn
  · exact h' n hn

theorem NulFree.of_join {p d : Path} (h : NulFree (p.join d).names) : NulFree d.names := by
  unfold Path.join at h
  split at h
  · exact h
  · exact h.of_subset fun m hm => List.mem_append_right _ hm

/-! ## Texts -/

namespace Text

/-- What a piece holds, the whole holds. -/
theorem mem_of_mem_pieces {sep c : Char} {cs p : List Char} (hp : p ∈ pieces sep cs) (hc : c ∈ p) : c ∈ cs := by
  induction cs generalizing p with
  | nil =>
    obtain rfl : p = [] := by simpa [pieces] using hp
    exact hc
  | cons d cs ih =>
    unfold pieces at hp
    split at hp
    · rcases List.mem_cons.mp hp with rfl | hp
      · cases hc
      · exact List.mem_cons_of_mem _ (ih hp hc)
    · split at hp
      · rename_i hnil
        exact absurd hnil (pieces_ne_nil sep cs)
      · rename_i q qs hq
        rcases List.mem_cons.mp hp with rfl | hp
        · rcases List.mem_cons.mp hc with rfl | hc
          · exact List.mem_cons_self
          · exact List.mem_cons_of_mem _ (ih (hq ▸ List.mem_cons_self) hc)
        · exact List.mem_cons_of_mem _ (ih (hq ▸ List.mem_cons_of_mem _ hp) hc)

theorem nulFree_fields {sep : Char} {s : String} (h : '\x00' ∉ s.toList) : NulFree (fields sep s) := by
  intro n hn hc
  obtain ⟨p, hp, rfl⟩ := List.mem_map.mp hn
  rw [String.toList_ofList] at hc
  exact h (mem_of_mem_pieces hp hc)

/-- What stands in pieces that are put together is a separator or stands in one of them. -/
theorem mem_glue {sep c : Char} {ps : List (List Char)} (hc : c ∈ glue sep ps) : c = sep ∨ ∃ p ∈ ps, c ∈ p := by
  induction ps with
  | nil => nomatch hc
  | cons p ps ih =>
    cases ps with
    | nil => exact .inr ⟨p, List.mem_cons_self, hc⟩
    | cons q ps =>
      rw [glue, List.mem_append, List.mem_cons] at hc
      rcases hc with hc | hc | hc
      · exact .inr ⟨p, List.mem_cons_self, hc⟩
      · exact .inl hc
      · rcases ih hc with hsep | ⟨r, hr, hc⟩
        · exact .inl hsep
        · exact .inr ⟨r, List.mem_cons_of_mem _ hr, hc⟩

end Text

namespace Path

/-- A path whose names hold no NUL is written without one. -/
theorem nul_not_mem_text {p : Path} (h : NulFree p.names) : '\x00' ∉ p.text.toList := by
  have hjoin : '\x00' ∉ (joinFields '/' p.names).toList := by
    intro hc
    rw [joinFields, String.toList_ofList] at hc
    rcases mem_glue hc with hsep | ⟨cs, hcs, hc⟩
    · exact absurd hsep (by decide)
    · obtain ⟨n, hn, rfl⟩ := List.mem_map.mp hcs
      exact h n hn hc
  have hroot : '\x00' ∉ p.root.text.toList := by
    cases p.root <;> decide
  unfold text
  simp only
  split
  · decide
  · rw [String.toList_append, List.mem_append]
    rintro (hc | hc)
    · exact hroot hc
    · exact hjoin hc

/-- A text without a NUL is read as a path without one. -/
theorem nulFree_ofText {s : String} (h : '\x00' ∉ s.toList) : NulFree (ofText s).names :=
  (nulFree_fields h).of_subset fun _ hm => (List.mem_filter.mp hm).1

/-- Names are only taken out of a path, except that `..` may be put in front. -/
theorem mem_dropParents {absolute : Bool} {above ns : List String} {m : String} (hm : m ∈ dropParents absolute above ns) :
    m ∈ above ∨ m ∈ ns ∨ m = ".." := by
  induction ns generalizing above with
  | nil => exact .inl (List.mem_reverse.mp hm)
  | cons n ns ih =>
    unfold dropParents at hm
    have hlater {above' : List String} (habove : ∀ x ∈ above', x ∈ above ∨ x = n ∨ x = "..")
        (hm : m ∈ dropParents absolute above' ns) : m ∈ above ∨ m ∈ n :: ns ∨ m = ".." := by
      rcases ih hm with h | h | h
      · rcases habove m h with h | rfl | h
        · exact .inl h
        · exact .inr (.inl List.mem_cons_self)
        · exact .inr (.inr h)
      · exact .inr (.inl (List.mem_cons_of_mem _ h))
      · exact .inr (.inr h)
    split at hm
    · split at hm
      · refine hlater (fun x hx => .inr (.inr ?_)) hm
        split at hx
        · nomatch hx
        · exact List.mem_singleton.mp hx
      · rename_i m' ms
        split at hm
        · refine hlater (fun x hx => ?_) hm
          rcases List.mem_cons.mp hx with hx | hx
          · exact .inr (.inr hx)
          · exact .inl hx
        · exact hlater (fun x hx => .inl (List.mem_cons_of_mem _ hx)) hm
    · refine hlater (fun x hx => ?_) hm
      rcases List.mem_cons.mp hx with hx | hx
      · exact .inr (.inl hx)
      · exact .inl hx

theorem nulFree_dropParents {absolute : Bool} {ns : List String} (h : NulFree ns) : NulFree (dropParents absolute [] ns) := by
  intro m hm
  rcases mem_dropParents hm with hnil | hns | hback
  · nomatch hnil
  · exact h m hns
  · rw [hback]
    decide

end Path

/-! ## Files -/

namespace Files.FileSystem

variable {fs fs' : FileSystem} {follow : Bool} {cwd : Location} {p : Path}

theorem nul_of_locate (h : fs.locate follow cwd p = .error .nulCharacter) : ¬NulFree p.names := by
  rw [← nulFree_iff]
  intro hfree
  rw [locate, hfree, if_neg Bool.false_ne_true] at h
  split at h
  · cases h
  · obtain ⟨f, -, hf⟩ := mapError_eq_error_iff.mp h
    cases hf

/-- A path that holds a NUL leads nowhere. -/
theorem locate_of_nul (hnul : ¬NulFree p.names) : fs.locate follow cwd p = .error .nulCharacter := by
  rw [← nulFree_iff, Bool.not_eq_false] at hnul
  rw [locate, if_pos hnul]

theorem read_of_nul (hnul : ¬NulFree p.names) : fs.read cwd p = .error .nulCharacter := by
  simp only [read, stat, locate_of_nul hnul, Bind.bind, Except.bind]

theorem nul_of_stat (h : fs.stat cwd p = .error .nulCharacter) : ¬NulFree p.names := by
  rcases bind_eq_error_iff.mp h with hl | ⟨l, -, h⟩
  · exact nul_of_locate hl
  · split at h <;> nomatch h

theorem nul_of_read (h : fs.read cwd p = .error .nulCharacter) : ¬NulFree p.names := by
  rcases bind_eq_error_iff.mp h with hs | ⟨n, -, h⟩
  · exact nul_of_stat hs
  · split at h <;> nomatch h

theorem nul_of_write {bs : Bytes} (h : fs.write cwd p bs = .error .nulCharacter) : ¬NulFree p.names := by
  rcases bind_eq_error_iff.mp h with hl | ⟨l, -, h⟩
  · exact nul_of_locate hl
  · split at h <;> nomatch h

theorem nul_of_makeDirectory (h : fs.makeDirectory cwd p = .error .nulCharacter) : ¬NulFree p.names := by
  rcases bind_eq_error_iff.mp h with hl | ⟨l, -, h⟩
  · exact nul_of_locate hl
  · split at h <;> nomatch h

theorem nul_of_replace {source : Location} (h : fs.replace cwd source p = .error .nulCharacter) : ¬NulFree p.names := by
  rcases bind_eq_error_iff.mp h with hl | ⟨l, -, h⟩
  · exact nul_of_locate hl
  · split at h <;> nomatch h

theorem nul_of_ensureDirectory (h : fs.ensureDirectory cwd p = .error .nulCharacter) : ¬NulFree p.names := by
  rw [ensureDirectory] at h
  split at h
  · nomatch h
  · rename_i hmake
    split at h
    · nomatch h
    · exact nul_of_makeDirectory (Except.error.inj h ▸ hmake)

theorem nul_of_ensureDirectories (h : (fs.ensureDirectories cwd p).2 = some .nulCharacter) : ¬NulFree p.names := by
  fun_induction ensureDirectories fs cwd p with
  | case1 => cases h
  | case2 => cases h
  | case3 _ _ _ _ _ habove ih =>
    rw [habove] at ih
    exact fun hfree => ih h (hfree.of_subset fun m hm => List.dropLast_subset _ hm)
  | case4 => cases h
  | case5 _ _ _ _ _ _ hself =>
    exact nul_of_ensureDirectory (Option.some.inj h ▸ hself)
  | case6 _ _ _ hmake =>
    split at h
    · cases h
    · exact nul_of_makeDirectory (Option.some.inj h ▸ hmake)

/-- No link leads to a name that holds a NUL. -/
def LinksNulFree (fs : FileSystem) : Prop := ∀ l target, fs.node? l = some (.link target) → '\x00' ∉ target.toList

theorem nulFree_targetNames {target : String} (h : '\x00' ∉ target.toList) : NulFree (targetNames target) := by
  have hnames : NulFree ((fields '/' target).filter (· ≠ "")) := (nulFree_fields h).of_subset fun _ hm => (List.mem_filter.mp hm).1
  unfold targetNames
  simp only
  split
  · refine hnames.append fun n hn => ?_
    rw [List.mem_singleton.mp hn]
    decide
  · exact hnames

theorem nulFree_targetStart {target : String} {here : Location} (h : NulFree here) : NulFree (targetStart target here) := by
  unfold targetStart
  split
  · exact nofun
  · exact h

theorem node_of_linkAt? {l : Location} {target : String} (h : fs.linkAt? l = some target) :
    ∃ l', fs.node? l' = some (.link target) := by
  unfold linkAt? at h
  split at h
  · rename_i l' _
    split at h
    · rename_i hnode
      exact ⟨l', by rw [hnode, Option.some.inj h]⟩
    · nomatch h
  · nomatch h

theorem nulFree_followNames (hlinks : LinksNulFree fs) {depth : Nat} {active : List Location} {here : Location} {ns : List String}
    (hhere : NulFree here) (hns : NulFree ns) : NulFree (fs.followNames depth active here ns).names := by
  fun_induction followNames fs depth active here ns with
  | case1 => exact hhere
  | case2 _ _ _ _ ih => exact ih hhere (hns.of_subset fun m hm => List.mem_cons_of_mem _ hm)
  | case3 _ _ _ _ _ ih =>
    exact ih (hhere.of_subset fun m hm => List.dropLast_subset _ hm) (hns.of_subset fun m hm => List.mem_cons_of_mem _ hm)
  | case4 _ _ _ n ns _ _ _ ih =>
    refine ih (hhere.append fun m hm => ?_) (hns.of_subset fun m hm => List.mem_cons_of_mem _ hm)
    exact hns m (List.mem_singleton.mp hm ▸ List.mem_cons_self)
  | case5 => exact hhere.append hns
  | case6 => exact hhere.append hns
  | case7 _ _ _ _ _ _ _ hlink _ _ _ _ ih₁ ih₂ =>
    obtain ⟨l, hl⟩ := node_of_linkAt? hlink
    have hrest := hns.of_subset fun m hm => List.mem_cons_of_mem _ hm
    exact ih₂ (ih₁ (nulFree_targetStart hhere) (nulFree_targetNames (hlinks l _ hl))) hrest
  | case8 _ _ _ _ _ _ _ hlink _ _ _ _ ih =>
    obtain ⟨l, hl⟩ := node_of_linkAt? hlink
    have hrest := hns.of_subset fun m hm => List.mem_cons_of_mem _ hm
    exact (ih (nulFree_targetStart hhere) (nulFree_targetNames (hlinks l _ hl))).append hrest

/-- The real path of a path without NUL has none either. -/
theorem nulFree_realPath {l : Location} (hlinks : LinksNulFree fs) (hcwd : NulFree cwd) (hp : NulFree p.names)
    (h : fs.realPath cwd p = .ok l) : NulFree l := by
  have hjoin : NulFree ((⟨.slash, cwd⟩ : Path).join p).names := by
    unfold Path.join
    split
    · exact hp
    · exact hcwd.append hp
  have hreal : l = fs.realNames ((⟨.slash, cwd⟩ : Path).join p).names := by
    unfold realPath at h
    split at h
    · nomatch h
    · simp only at h
      split at h
      · nomatch h
      · exact (Except.ok.inj h).symm
  rw [hreal]
  have hfollowed : NulFree (fs.followNames fs.nodes.length [] [] ((⟨.slash, cwd⟩ : Path).join p).names).names :=
    nulFree_followNames hlinks nofun hjoin
  exact Path.nulFree_dropParents (hfollowed.of_subset fun m hm => (List.mem_filter.mp hm).1)

theorem nul_of_realPath (h : fs.realPath cwd p = .error .nulCharacter) : ¬NulFree p.names := by
  rw [← nulFree_iff]
  intro hfree
  rw [realPath, hfree, if_neg Bool.false_ne_true] at h
  simp only at h
  split at h <;> nomatch h

end Files.FileSystem

end ScriptLoader
