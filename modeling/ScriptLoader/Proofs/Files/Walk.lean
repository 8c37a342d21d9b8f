import ScriptLoader.Files.Walk

/-!
# Where walks lead

Where a walk ends is decided by the links alone (`Leads`); files and directories only decide whether it gets there. So what puts files
and directories into a file system, or takes files away, sends no walk anywhere else (`walk_of_sameWays`), and a walk to a name in
a directory is a walk to the directory and one step more (`walk_snoc`, `walk_of_snoc`).
-/

namespace ScriptLoader.Files.FileSystem

/-! ## Children -/

theorem lookup_isSome_iff {nodes : List (Location × Node)} {loc : Location} :
    (nodes.lookup loc).isSome = true ↔ ∃ e ∈ nodes, e.1 = loc := by
  induction nodes with
  | nil => simp
  | cons e es ih =>
    rcases e with ⟨l, n⟩
    by_cases h : loc = l
    · subst h
      simp
    · have hne : (loc == l) = false := by simp [h]
      simp [List.lookup_cons, hne, ih, Ne.symm h]

theorem append_ne_nil (loc : Location) (n : String) : loc ++ [n] ≠ [] := by simp

theorem node?_child (fs : FileSystem) (loc : Location) (n : String) : fs.node? (loc ++ [n]) = fs.nodes.lookup (loc ++ [n]) := by
  simp [node?]

/-- The names in a directory are those at which something is. -/
theorem mem_children_iff {fs : FileSystem} {loc : Location} {n : String} :
    n ∈ fs.children loc ↔ (fs.node? (loc ++ [n])).isSome = true := by
  rw [node?_child, lookup_isSome_iff, children, List.mem_filterMap]
  constructor
  · rintro ⟨e, he, h⟩
    split at h
    · rename_i hloc
      obtain ⟨before, hbefore⟩ := List.getLast?_eq_some_iff.mp h
      rw [hbefore, List.dropLast_concat] at hloc
      exact ⟨e, he, by rw [hbefore, hloc]⟩
    · nomatch h
  · rintro ⟨e, he, h⟩
    exact ⟨e, he, by simp [h]⟩

theorem isDirectory_iff {fs : FileSystem} {loc : Location} : fs.isDirectory loc = true ↔ fs.node? loc = some .directory := by
  unfold isDirectory
  split <;> simp_all

/-! ## Where names lead -/

/-- The names lead from one location to another: links are followed, `.` stays and `..` goes back, whether anything is there or not. -/
inductive Leads (fs : FileSystem) : Location → List String → Location → Prop where
  | here {l : Location} : Leads fs l [] l
  | dot {l l' : Location} {n : String} {ns : List String} (hn : n = ".") (rest : Leads fs l ns l') : Leads fs l (n :: ns) l'
  | back {l l' : Location} {n : String} {ns : List String} (hn : n = "..") (rest : Leads fs l.dropLast ns l') :
      Leads fs l (n :: ns) l'
  | name {l l' : Location} {n : String} {ns : List String} (hdot : n ≠ ".") (hback : n ≠ "..")
      (hlink : ∀ target, fs.node? (l ++ [n]) ≠ some (.link target)) (rest : Leads fs (l ++ [n]) ns l') : Leads fs l (n :: ns) l'
  | link {l l' : Location} {n target : String} {ns : List String} (hdot : n ≠ ".") (hback : n ≠ "..")
      (hlink : fs.node? (l ++ [n]) = some (.link target))
      (rest : Leads fs (targetStart target l) (targetNames target ++ ns) l') : Leads fs l (n :: ns) l'

variable {fs fs' : FileSystem}

/-- Names lead to one location at most. -/
theorem Leads.unique {l l₁ l₂ : Location} {ns : List String} (h₁ : fs.Leads l ns l₁) (h₂ : fs.Leads l ns l₂) : l₁ = l₂ := by
  induction h₁ with
  | here =>
    cases h₂
    rfl
  | dot hn _ ih =>
    cases h₂ with
    | dot _ rest => exact ih rest
    | back hn' => exact absurd (hn.symm.trans hn') (by decide)
    | name hdot => exact absurd hn hdot
    | link hdot => exact absurd hn hdot
  | back hn _ ih =>
    cases h₂ with
    | dot hn' => exact absurd (hn.symm.trans hn') (by decide)
    | back _ rest => exact ih rest
    | name _ hback => exact absurd hn hback
    | link _ hback => exact absurd hn hback
  | name hdot hback hlink _ ih =>
    cases h₂ with
    | dot hn => exact absurd hn hdot
    | back hn => exact absurd hn hback
    | name _ _ _ rest => exact ih rest
    | link _ _ hlink' => exact absurd hlink' (hlink _)
  | link hdot hback hlink _ ih =>
    cases h₂ with
    | dot hn => exact absurd hn hdot
    | back hn => exact absurd hn hback
    | name _ _ hlink' => exact absurd hlink (hlink' _)
    | link _ _ hlink' rest =>
      obtain rfl := Node.link.inj (Option.some.inj (hlink.symm.trans hlink'))
      exact ih rest

/-- The links are the same. -/
def SameLinks (fs fs' : FileSystem) : Prop :=
  ∀ l target, fs.node? l = some (.link target) ↔ fs'.node? l = some (.link target)

theorem SameLinks.refl (fs : FileSystem) : SameLinks fs fs := fun _ _ => .rfl

theorem SameLinks.symm (h : SameLinks fs fs') : SameLinks fs' fs := fun l target => (h l target).symm

theorem SameLinks.trans {fs'' : FileSystem} (h : SameLinks fs fs') (h' : SameLinks fs' fs'') : SameLinks fs fs'' :=
  fun l target => (h l target).trans (h' l target)

/-- Where names lead depends on the links alone. -/
theorem Leads.of_sameLinks {l l' : Location} {ns : List String} (h : fs.Leads l ns l') (hlinks : SameLinks fs fs') :
    fs'.Leads l ns l' := by
  induction h with
  | here => exact .here
  | dot hn _ ih => exact .dot hn ih
  | back hn _ ih => exact .back hn ih
  | name hdot hback hlink _ ih => exact .name hdot hback (fun target ht => hlink target ((hlinks _ _).mpr ht)) ih
  | link hdot hback hlink _ ih => exact .link hdot hback ((hlinks _ _).mp hlink) ih

/-! ## Walks -/

/-- A name is not one of the two that every directory has. -/
structure Plain (n : String) : Prop where
  dot : n ≠ "."
  back : n ≠ ".."

/-- A walk that succeeds, step by step. -/
inductive Walks (fs : FileSystem) (follow : Bool) : Nat → Location → List String → Location → Prop where
  | here {k : Nat} {l : Location} : Walks fs follow k l [] l
  | dot {k : Nat} {l l' : Location} {ns : List String} (hdir : fs.node? l = some .directory)
      (rest : Walks fs follow k l ns l') : Walks fs follow k l ("." :: ns) l'
  | back {k : Nat} {l l' : Location} {ns : List String} (hdir : fs.node? l = some .directory)
      (rest : Walks fs follow k l.dropLast ns l') : Walks fs follow k l (".." :: ns) l'
  | fresh {k : Nat} {l : Location} {n : String} (hdir : fs.node? l = some .directory) (hn : Plain n)
      (hlen : n.utf8ByteSize ≤ maxName) (hnode : fs.node? (l ++ [n]) = none) : Walks fs follow k l [n] (l ++ [n])
  | stay {k : Nat} {l : Location} {n target : String} (hdir : fs.node? l = some .directory) (hn : Plain n)
      (hlen : n.utf8ByteSize ≤ maxName) (hnode : fs.node? (l ++ [n]) = some (.link target)) (hfollow : follow = false) :
      Walks fs follow k l [n] (l ++ [n])
  | link {k : Nat} {l l' : Location} {n target : String} {ns : List String} (hdir : fs.node? l = some .directory) (hn : Plain n)
      (hlen : n.utf8ByteSize ≤ maxName) (hnode : fs.node? (l ++ [n]) = some (.link target)) (hfollow : ns = [] → follow = true)
      (rest : Walks fs follow k (targetStart target l) (targetNames target ++ ns) l') : Walks fs follow (k + 1) l (n :: ns) l'
  | name {k : Nat} {l l' : Location} {n : String} {ns : List String} {node : Node} (hdir : fs.node? l = some .directory)
      (hn : Plain n) (hlen : n.utf8ByteSize ≤ maxName) (hnode : fs.node? (l ++ [n]) = some node)
      (hlink : ∀ target, node ≠ .link target) (rest : Walks fs follow k (l ++ [n]) ns l') : Walks fs follow k l (n :: ns) l'

variable {follow : Bool} {k : Nat} {l l' : Location} {n : String} {ns : List String}

theorem walks_of_walk (h : fs.walk follow k l ns = .ok l') : fs.Walks follow k l ns l' := by
  fun_induction walk fs follow k l ns with
  | case1 =>
    injection h with h
    subst h
    exact .here
  | case2 | case3 | case4 | case7 | case9 | case11 => nomatch h
  | case5 _ _ _ hdir ih => exact .dot hdir (ih h)
  | case6 _ _ _ hdir _ ih => exact .back hdir (ih h)
  | case8 _ _ _ _ hdir hdot hback hlen hnode hlast =>
    injection h with h
    subst h
    rw [List.isEmpty_iff.mp hlast]
    exact .fresh hdir ⟨hdot, hback⟩ (Nat.not_lt.mp hlen) hnode
  | case10 _ _ _ _ hdir hdot hback hlen target hnode hlast =>
    injection h with h
    subst h
    rw [Bool.and_eq_true, List.isEmpty_iff, Bool.not_eq_true'] at hlast
    rw [hlast.1]
    exact .stay hdir ⟨hdot, hback⟩ (Nat.not_lt.mp hlen) hnode hlast.2
  | case12 _ _ _ hdir hdot hback hlen target hnode hlast _ ih =>
    refine .link hdir ⟨hdot, hback⟩ (Nat.not_lt.mp hlen) hnode (fun hns => ?_) (ih h)
    simpa [hns] using hlast
  | case13 _ _ _ _ hdir hdot hback hlen node hlink hnode ih =>
    exact .name hdir ⟨hdot, hback⟩ (Nat.not_lt.mp hlen) hnode hlink (ih h)

theorem Walks.walk (h : fs.Walks follow k l ns l') : fs.walk follow k l ns = .ok l' := by
  induction h with
  | here => rw [FileSystem.walk]
  | dot hdir _ ih => rw [FileSystem.walk, hdir]; simpa using ih
  | back hdir _ ih => rw [FileSystem.walk, hdir]; simpa using ih
  | fresh hdir hn hlen hnode => rw [FileSystem.walk, hdir]; simp [hn.dot, hn.back, Nat.not_lt.mpr hlen, hnode]
  | stay hdir hn hlen hnode hfollow => rw [FileSystem.walk, hdir]; simp [hn.dot, hn.back, Nat.not_lt.mpr hlen, hnode, hfollow]
  | link hdir hn hlen hnode hfollow _ ih =>
    rw [FileSystem.walk, hdir]
    simp only [if_neg hn.dot, if_neg hn.back, if_neg (Nat.not_lt.mpr hlen), hnode, ih]
    rw [if_neg (by simpa using hfollow)]
  | name hdir hn hlen hnode hlink _ ih =>
    rw [FileSystem.walk, hdir]
    simp only [if_neg hn.dot, if_neg hn.back, if_neg (Nat.not_lt.mpr hlen), hnode, ih]


theorem walk_eq_ok_iff : fs.walk follow k l ns = .ok l' ↔ fs.Walks follow k l ns l' := ⟨walks_of_walk, Walks.walk⟩

/-- A walk ends at one location only. -/
theorem Walks.unique {l'' : Location} (h : fs.Walks follow k l ns l') (h' : fs.Walks follow k l ns l'') : l' = l'' :=
  Except.ok.inj (h.walk.symm.trans h'.walk)

/-- A walk along names begins in a directory. -/
theorem Walks.directory (h : fs.Walks follow k l (n :: ns) l') : fs.node? l = some .directory := by
  cases h <;> assumption

/-- A walk along one name ends at the name, unless it follows a link. -/
theorem Walks.one (hdir : fs.node? l = some .directory) (hn : Plain n) (hlen : n.utf8ByteSize ≤ maxName)
    (hlink : follow = false ∨ ∀ target, fs.node? (l ++ [n]) ≠ some (.link target)) : fs.Walks follow k l [n] (l ++ [n]) := by
  cases hnode : fs.node? (l ++ [n]) with
  | none => exact .fresh hdir hn hlen hnode
  | some node =>
    by_cases hl : ∃ target, node = .link target
    · obtain ⟨target, rfl⟩ := hl
      obtain hstay | hno := hlink
      · exact .stay hdir hn hlen hnode hstay
      · exact absurd hnode (hno target)
    · exact .name hdir hn hlen hnode (fun target ht => hl ⟨target, ht⟩) .here

/-- A walk that follows the last link ends where the names lead. -/
theorem Walks.leads (h : fs.Walks true k l ns l') : fs.Leads l ns l' := by
  induction h with
  | here => exact .here
  | dot _ _ ih => exact .dot rfl ih
  | back _ _ ih => exact .back rfl ih
  | fresh _ hn _ hnode => exact .name hn.dot hn.back (by simp [hnode]) .here
  | stay _ _ _ _ hstay => nomatch hstay
  | link _ hn _ hnode _ _ ih => exact .link hn.dot hn.back hnode ih
  | name _ hn _ hnode hlink _ ih =>
    exact .name hn.dot hn.back (fun target ht => hlink target (Option.some.inj (hnode.symm.trans ht))) ih

/-- A walk to a name leads to a directory first, and then to the name, unless it follows a link. -/
theorem Walks.of_snoc (hn : Plain n) (h : fs.Walks follow k l (ns ++ [n]) l') :
    ∃ d, fs.Walks true k l ns d ∧ fs.node? d = some .directory ∧ n.utf8ByteSize ≤ maxName ∧
      ((follow = false ∨ ∀ target, fs.node? (d ++ [n]) ≠ some (.link target)) → l' = d ++ [n]) := by
  generalize hnames : ns ++ [n] = names at h
  induction h generalizing ns with
  | here => simp at hnames
  | dot hdir _ ih =>
    cases ns with
    | nil => exact absurd (List.cons.inj hnames).1 hn.dot
    | cons m ns =>
      obtain ⟨rfl, hrest⟩ := List.cons.inj hnames
      obtain ⟨d, hd, h⟩ := ih hrest
      exact ⟨d, .dot hdir hd, h⟩
  | back hdir _ ih =>
    cases ns with
    | nil => exact absurd (List.cons.inj hnames).1 hn.back
    | cons m ns =>
      obtain ⟨rfl, hrest⟩ := List.cons.inj hnames
      obtain ⟨d, hd, h⟩ := ih hrest
      exact ⟨d, .back hdir hd, h⟩
  | fresh hdir _ hlen =>
    cases ns with
    | nil =>
      obtain ⟨rfl, -⟩ := List.cons.inj hnames
      exact ⟨_, .here, hdir, hlen, fun _ => rfl⟩
    | cons m ns => simp at hnames
  | stay hdir _ hlen =>
    cases ns with
    | nil =>
      obtain ⟨rfl, -⟩ := List.cons.inj hnames
      exact ⟨_, .here, hdir, hlen, fun _ => rfl⟩
    | cons m ns => simp at hnames
  | link hdir hm hlen hnode hfollow _ ih =>
    cases ns with
    | nil =>
      obtain ⟨rfl, rfl⟩ := List.cons.inj hnames
      refine ⟨_, .here, hdir, hlen, ?_⟩
      rintro (hstay | hno)
      · exact absurd (hstay.symm.trans (hfollow rfl)) (by decide)
      · exact absurd hnode (hno _)
    | cons m ns =>
      obtain ⟨rfl, rfl⟩ := List.cons.inj hnames
      obtain ⟨d, hd, h⟩ := ih (List.append_assoc ..)
      exact ⟨d, .link hdir hm hlen hnode (fun _ => rfl) hd, h⟩
  | name hdir hm hlen hnode hlink rest ih =>
    cases ns with
    | nil =>
      obtain ⟨rfl, rfl⟩ := List.cons.inj hnames
      cases rest
      exact ⟨_, .here, hdir, hlen, fun _ => rfl⟩
    | cons m ns =>
      obtain ⟨rfl, hrest⟩ := List.cons.inj hnames
      obtain ⟨d, hd, h⟩ := ih hrest
      exact ⟨d, .name hdir hm hlen hnode hlink hd, h⟩

/-- A walk to a directory goes on to a name in it. -/
theorem Walks.snoc {d : Location} (h : fs.Walks true k l ns d) (hdir : fs.node? d = some .directory) (hn : Plain n)
    (hlen : n.utf8ByteSize ≤ maxName) (hlink : follow = false ∨ ∀ target, fs.node? (d ++ [n]) ≠ some (.link target)) :
    fs.Walks follow k l (ns ++ [n]) (d ++ [n]) := by
  induction h with
  | here => exact .one hdir hn hlen hlink
  | dot hd _ ih => exact .dot hd (ih hdir hlink)
  | back hd _ ih => exact .back hd (ih hdir hlink)
  | fresh _ _ _ hnode => exact absurd (hnode.symm.trans hdir) (by simp)
  | stay _ _ _ _ hstay => nomatch hstay
  | @link _ _ _ _ target ns hd hm hm' hnode _ _ ih =>
    refine .link hd hm hm' hnode (fun hnil => absurd hnil (append_ne_nil ns n)) ?_
    show fs.Walks follow _ _ (targetNames target ++ (ns ++ [n])) _
    rw [← List.append_assoc]
    exact ih hdir hlink
  | name hd hm hm' hnode hno _ ih => exact .name hd hm hm' hnode hno (ih hdir hlink)

/-- Where a walk that follows the last link finds something, a walk that does not follow it does too. -/
theorem Walks.unfollowed (h : fs.Walks true k l ns l') (hnode : fs.node? l' ≠ none) :
    ∃ l'', fs.Walks false k l ns l'' ∧ fs.node? l'' ≠ none := by
  induction h with
  | here => exact ⟨_, .here, hnode⟩
  | dot hd _ ih =>
    obtain ⟨l'', h, hsome⟩ := ih hnode
    exact ⟨l'', .dot hd h, hsome⟩
  | back hd _ ih =>
    obtain ⟨l'', h, hsome⟩ := ih hnode
    exact ⟨l'', .back hd h, hsome⟩
  | fresh _ _ _ hnone => exact absurd hnone hnode
  | stay _ _ _ _ hstay => nomatch hstay
  | @link _ _ _ _ _ ns hd hm hlen hlink _ _ ih =>
    by_cases hns : ns = []
    · subst hns
      exact ⟨_, .stay hd hm hlen hlink rfl, by simp [hlink]⟩
    · obtain ⟨l'', h, hsome⟩ := ih hnode
      exact ⟨l'', .link hd hm hlen hlink (fun h => absurd h hns) h, hsome⟩
  | name hd hm hlen hn hno _ ih =>
    obtain ⟨l'', h, hsome⟩ := ih hnode
    exact ⟨l'', .name hd hm hlen hn hno h, hsome⟩

/-- A walk that does not end at a link may follow links as well. -/
theorem Walks.followed (h : fs.Walks follow k l ns l') (hnode : ∀ target, fs.node? l' ≠ some (.link target)) :
    fs.Walks true k l ns l' := by
  induction h with
  | here => exact .here
  | dot hd _ ih => exact .dot hd (ih hnode)
  | back hd _ ih => exact .back hd (ih hnode)
  | fresh hd hm hlen hnone => exact .fresh hd hm hlen hnone
  | stay _ _ _ hlink => exact absurd hlink (hnode _)
  | link hd hm hlen hlink _ _ ih => exact .link hd hm hlen hlink (fun _ => rfl) (ih hnode)
  | name hd hm hlen hn hno _ ih => exact .name hd hm hlen hn hno (ih hnode)

/-- A walk from the root that follows the last link does not end at a link. -/
theorem Walks.noLink (h : fs.Walks true k [] ns l') : ∀ target, fs.node? l' ≠ some (.link target) := by
  -- the walk goes through directories only, all that is above them included
  have hwalk {k : Nat} {l l' : Location} {ns : List String} (h : fs.Walks true k l ns l')
      (habove : ∀ m, m <+: l → fs.node? m = some .directory) : ∀ target, fs.node? l' ≠ some (.link target) := by
    induction h with
    | @here _ l => simp [habove l (List.prefix_refl l)]
    | dot _ _ ih => exact ih habove
    | @back _ l _ _ _ _ ih => exact ih fun m hm => habove m (hm.trans (List.dropLast_prefix l))
    | fresh _ _ _ hnode => simp [hnode]
    | stay _ _ _ _ hstay => cases hstay
    | @link _ l _ _ target _ _ _ _ _ _ _ ih =>
      refine ih fun m hm => ?_
      unfold targetStart at hm
      split at hm
      · rw [List.prefix_nil.mp hm]
        rfl
      · exact habove m hm
    | @name _ l _ n ns node _ _ _ hnode hlink rest ih =>
      cases ns with
      | nil =>
        cases rest
        intro target ht
        exact hlink target (Option.some.inj (hnode.symm.trans ht))
      | cons m ns =>
        refine ih fun m hm => ?_
        rcases List.prefix_concat_iff.mp hm with rfl | hm
        · exact rest.directory
        · exact habove m hm
  exact hwalk h fun m hm => by
    rw [List.prefix_nil.mp hm]
    rfl

/-! ## Changes that redirect no walk -/

/-- No directory is gone, and the links are the same. -/
structure KeepsWays (fs fs' : FileSystem) : Prop where
  directories : ∀ l, fs.node? l = some .directory → fs'.node? l = some .directory
  links : SameLinks fs fs'

theorem KeepsWays.refl (fs : FileSystem) : KeepsWays fs fs := ⟨fun _ h => h, .refl fs⟩

theorem KeepsWays.trans {fs'' : FileSystem} (h : KeepsWays fs fs') (h' : KeepsWays fs' fs'') : KeepsWays fs fs'' :=
  ⟨fun l hl => h'.directories l (h.directories l hl), h.links.trans h'.links⟩

/-- A walk that succeeds leads to the same place when its ways are kept. -/
theorem Walks.of_keepsWays (h : fs.Walks follow k l ns l') (hways : KeepsWays fs fs') : fs'.Walks follow k l ns l' := by
  have hkept {l : Location} {n : String} (h : ∀ target, fs.node? (l ++ [n]) ≠ some (.link target)) :
      ∀ target, fs'.node? (l ++ [n]) ≠ some (.link target) := fun target ht => h target ((hways.links _ _).mpr ht)
  induction h with
  | here => exact .here
  | dot hdir _ ih => exact .dot (hways.directories _ hdir) ih
  | back hdir _ ih => exact .back (hways.directories _ hdir) ih
  | fresh hdir hn hlen hnode => exact .one (hways.directories _ hdir) hn hlen (.inr (hkept (by simp [hnode])))
  | stay hdir hn hlen hnode hstay => exact .stay (hways.directories _ hdir) hn hlen ((hways.links _ _).mp hnode) hstay
  | link hdir hn hlen hnode hfollow _ ih =>
    exact .link (hways.directories _ hdir) hn hlen ((hways.links _ _).mp hnode) hfollow ih
  | @name _ _ _ _ ns _ hdir hn hlen hnode hlink rest ih =>
    have hno := fun target ht => hlink target (Option.some.inj (hnode.symm.trans ht))
    cases ns with
    | nil =>
      cases rest
      exact .one (hways.directories _ hdir) hn hlen (.inr (hkept hno))
    | cons m ns =>
      have hdir' := hways.directories _ rest.directory
      exact .name (hways.directories _ hdir) hn hlen hdir' (fun target ht => nomatch ht) ih

/-- There is nothing or a regular file, so that no walk goes on there. -/
def Loose (node : Option Node) : Prop := node ≠ some .directory ∧ ∀ target, node ≠ some (.link target)

theorem loose_none : Loose none := ⟨nofun, nofun⟩

theorem loose_file (bs : Bytes) : Loose (some (.file bs)) := ⟨nofun, nofun⟩

/-- The file systems differ in regular files only. -/
def SameWays (fs fs' : FileSystem) : Prop := ∀ l, fs'.node? l = fs.node? l ∨ (Loose (fs.node? l) ∧ Loose (fs'.node? l))

theorem SameWays.symm (h : SameWays fs fs') : SameWays fs' fs := fun l => (h l).imp Eq.symm And.symm

theorem SameWays.keepsWays (h : SameWays fs fs') : KeepsWays fs fs' := by
  refine ⟨fun l hdir => ?_, fun l target => ?_⟩
  · rcases h l with hl | ⟨hl, -⟩
    · exact hl.trans hdir
    · exact absurd hdir hl.1
  · rcases h l with hl | ⟨hl, hl'⟩
    · rw [hl]
    · exact ⟨fun ht => absurd ht (hl.2 target), fun ht => absurd ht (hl'.2 target)⟩

end ScriptLoader.Files.FileSystem
