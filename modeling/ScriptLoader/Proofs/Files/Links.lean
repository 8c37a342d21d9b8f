import Mathlib.Data.List.Induction
import Mathlib.Data.List.Perm.Subperm
import ScriptLoader.Proofs.Files.Names
import ScriptLoader.Proofs.Files.RealPath

/-!
# Real paths with links

Where every path leads somewhere when its links are followed (`LoopFree`), the real path of a path is where it leads
(`realPath_eq_ok_iff`): the way in which links are followed and watched for circles makes no difference. A real path has no links left
(`Resolved`), so it is its own real path, and what the system finds at it is what stands there (`stat_eq_ok_iff_of_resolved`).
-/

namespace ScriptLoader

open Text

/-! ## Names as they are read -/

/-- Pieces hold no separator. -/
theorem Text.not_mem_of_mem_pieces {sep : Char} {cs p : List Char} (hp : p ∈ pieces sep cs) : sep ∉ p := by
  induction cs generalizing p with
  | nil =>
    obtain rfl : p = [] := by simpa [pieces] using hp
    exact List.not_mem_nil
  | cons c cs ih =>
    unfold pieces at hp
    split at hp
    · rcases List.mem_cons.mp hp with rfl | hp
      · exact List.not_mem_nil
      · exact ih hp
    · rename_i hc
      split at hp
      · rename_i hnil
        exact absurd hnil (pieces_ne_nil sep cs)
      · rename_i q qs hq
        rcases List.mem_cons.mp hp with rfl | hp
        · rw [List.mem_cons, not_or]
          exact ⟨fun h => hc h.symm, ih (hq ▸ List.mem_cons_self)⟩
        · exact ih (hq ▸ List.mem_cons_of_mem _ hp)

namespace Path

/-- The names of a path or of the target of a link: each is the name of a file, or one of the two that every directory has. -/
def AreSteps (ns : List String) : Prop := ∀ n ∈ ns, '/' ∉ n.toList ∧ n ≠ ""

theorem AreSteps.isName {ns : List String} (h : AreSteps ns) {n : String} (hn : n ∈ ns) (hdot : n ≠ ".") (hback : n ≠ "..") : IsName n :=
  ⟨(h n hn).1, (h n hn).2, hdot, hback⟩

theorem AreSteps.tail {n : String} {ns : List String} (h : AreSteps (n :: ns)) : AreSteps ns := fun m hm => h m (List.mem_cons_of_mem _ hm)

theorem AreSteps.append {ns ms : List String} (h : AreSteps ns) (h' : AreSteps ms) : AreSteps (ns ++ ms) := by
  intro n hn
  rcases List.mem_append.mp hn with hn | hn
  · exact h n hn
  · exact h' n hn

theorem AreNames.areSteps {ns : List String} (h : AreNames ns) : AreSteps ns := fun n hn => ⟨(h n hn).slash, (h n hn).empty⟩

theorem AreNames.of_prefix {ns ms : List String} (h : AreNames ns) (hpre : ms <+: ns) : AreNames ms := fun m hm => h m (hpre.subset hm)

theorem areSteps_fields (s : String) : AreSteps ((fields '/' s).filter (· ≠ "")) := by
  intro n hn
  obtain ⟨hn, hne⟩ := List.mem_filter.mp hn
  obtain ⟨p, hp, rfl⟩ := List.mem_map.mp hn
  refine ⟨?_, by simpa using hne⟩
  rw [String.toList_ofList]
  exact not_mem_of_mem_pieces hp

theorem areSteps_ofText (s : String) : AreSteps (ofText s).names := by
  intro n hn
  obtain ⟨hn, hne⟩ := List.mem_filter.mp hn
  simp only [Bool.and_eq_true, decide_eq_true_eq] at hne
  exact areSteps_fields s n (List.mem_filter.mpr ⟨hn, decide_eq_true hne.1⟩)

theorem areSteps_join {p q : Path} (hp : AreSteps p.names) (hq : AreSteps q.names) : AreSteps (p.join q).names := by
  unfold join
  split
  · exact hq
  · exact hp.append hq

end Path

namespace Files.FileSystem

variable {fs : FileSystem} {l l' : Location} {ns : List String} {n : String} {cwd : Location} {p : Path}

theorem areSteps_targetNames (target : String) : Path.AreSteps (targetNames target) := by
  unfold targetNames
  simp only
  split
  · refine (Path.areSteps_fields target).append fun n hn => ?_
    rw [List.mem_singleton.mp hn]
    exact ⟨by decide, by decide⟩
  · exact Path.areSteps_fields target

/-! ## Files as the system keeps them -/

/-- Every node stands in a directory, under a name that the system takes, and no link holds a NUL. -/
structure Planted (fs : FileSystem) : Prop where
  parent : ∀ l n, fs.node? (l ++ [n]) ≠ none → fs.node? l = some .directory
  isName : ∀ l n, fs.node? (l ++ [n]) ≠ none → Path.IsName n
  name : ∀ l n, fs.node? (l ++ [n]) ≠ none → n.utf8ByteSize ≤ maxName ∧ '\x00' ∉ n.toList
  links : fs.LinksNulFree

/-- A location that is reached without a link: neither it nor any directory above it is one. -/
structure Resolved (fs : FileSystem) (l : Location) : Prop where
  names : Path.AreNames l
  noLink : ∀ m, m <+: l → ∀ target, fs.node? m ≠ some (.link target)

/-- All names lead somewhere: no link leads to itself. -/
def LoopFree (fs : FileSystem) : Prop := ∀ ns, ∃ l, fs.Leads [] ns l

namespace Resolved

theorem root : fs.Resolved [] := by
  refine ⟨nofun, fun m hm target ht => ?_⟩
  rw [List.prefix_nil.mp hm] at ht
  cases ht

theorem of_prefix (h : fs.Resolved l) (hpre : l' <+: l) : fs.Resolved l' :=
  ⟨h.names.of_prefix hpre, fun m hm => h.noLink m (hm.trans hpre)⟩

theorem dropLast (h : fs.Resolved l) : fs.Resolved l.dropLast := h.of_prefix (List.dropLast_prefix l)

theorem snoc (h : fs.Resolved l) (hn : Path.IsName n) (hlink : ∀ target, fs.node? (l ++ [n]) ≠ some (.link target)) :
    fs.Resolved (l ++ [n]) := by
  refine ⟨h.names.snoc hn, fun m hm => ?_⟩
  rcases List.prefix_concat_iff.mp hm with rfl | hm
  · exact hlink
  · exact h.noLink m hm

theorem targetStart (h : fs.Resolved l) (target : String) : fs.Resolved (targetStart target l) := by
  unfold Files.targetStart
  split
  · exact root
  · exact h

/-- Names along which there is no link lead to themselves. -/
theorem leads (h : fs.Resolved (l ++ ns)) : fs.Leads l ns (l ++ ns) := by
  induction ns generalizing l with
  | nil =>
    rw [List.append_nil]
    exact .here
  | cons n ns ih =>
    have hn := h.names n (List.mem_append_right _ List.mem_cons_self)
    have happend : l ++ n :: ns = (l ++ [n]) ++ ns := by rw [List.append_assoc]; rfl
    refine .name hn.dot hn.parent (h.noLink _ ?_) ?_
    · rw [happend]
      exact List.prefix_append _ _
    · rw [happend] at h ⊢
      exact ih h

theorem leads_self (h : fs.Resolved l) : fs.Leads [] l l := leads (l := []) h

end Resolved

/-! ## Links that are followed to their ends -/

/-- Names lead from one location to another, each link to where its own target leads first; the number counts the links on the way. -/
inductive Follows (fs : FileSystem) : Nat → Location → List String → Location → Prop where
  | here {l : Location} : Follows fs 0 l [] l
  | dot {k : Nat} {l l' : Location} {n : String} {ns : List String} (hn : n = ".") (rest : Follows fs k l ns l') :
      Follows fs k l (n :: ns) l'
  | back {k : Nat} {l l' : Location} {n : String} {ns : List String} (hn : n = "..") (rest : Follows fs k l.dropLast ns l') :
      Follows fs k l (n :: ns) l'
  | name {k : Nat} {l l' : Location} {n : String} {ns : List String} (hdot : n ≠ ".") (hback : n ≠ "..")
      (hlink : ∀ target, fs.node? (l ++ [n]) ≠ some (.link target)) (rest : Follows fs k (l ++ [n]) ns l') : Follows fs k l (n :: ns) l'
  | link {j k : Nat} {l m l' : Location} {n target : String} {ns : List String} (hdot : n ≠ ".") (hback : n ≠ "..")
      (hlink : fs.node? (l ++ [n]) = some (.link target)) (inner : Follows fs j (targetStart target l) (targetNames target) m)
      (rest : Follows fs k m ns l') : Follows fs (j + k + 1) l (n :: ns) l'

theorem Follows.split {k : Nat} {as bs : List String} (h : fs.Follows k l (as ++ bs) l') :
    ∃ i j m, i + j = k ∧ fs.Follows i l as m ∧ fs.Follows j m bs l' := by
  generalize hnames : as ++ bs = names at h
  induction h generalizing as with
  | here =>
    obtain ⟨rfl, rfl⟩ := List.append_eq_nil_iff.mp hnames
    exact ⟨0, 0, _, rfl, .here, .here⟩
  | dot hn rest ih =>
    rcases List.append_eq_cons_iff.mp hnames with ⟨rfl, rfl⟩ | ⟨as, rfl, hrest⟩
    · exact ⟨0, _, _, Nat.zero_add _, .here, .dot hn rest⟩
    · obtain ⟨i, j, m, hk, has, hbs⟩ := ih hrest.symm
      exact ⟨i, j, m, hk, .dot hn has, hbs⟩
  | back hn rest ih =>
    rcases List.append_eq_cons_iff.mp hnames with ⟨rfl, rfl⟩ | ⟨as, rfl, hrest⟩
    · exact ⟨0, _, _, Nat.zero_add _, .here, .back hn rest⟩
    · obtain ⟨i, j, m, hk, has, hbs⟩ := ih hrest.symm
      exact ⟨i, j, m, hk, .back hn has, hbs⟩
  | name hdot hback hlink rest ih =>
    rcases List.append_eq_cons_iff.mp hnames with ⟨rfl, rfl⟩ | ⟨as, rfl, hrest⟩
    · exact ⟨0, _, _, Nat.zero_add _, .here, .name hdot hback hlink rest⟩
    · obtain ⟨i, j, m, hk, has, hbs⟩ := ih hrest.symm
      exact ⟨i, j, m, hk, .name hdot hback hlink has, hbs⟩
  | @link k₀ _ _ _ _ _ _ _ hdot hback hlink inner rest _ ih =>
    rcases List.append_eq_cons_iff.mp hnames with ⟨rfl, rfl⟩ | ⟨as, rfl, hrest⟩
    · exact ⟨0, _, _, Nat.zero_add _, .here, .link hdot hback hlink inner rest⟩
    · obtain ⟨i, j, m, hk, has, hbs⟩ := ih hrest.symm
      exact ⟨k₀ + i + 1, j, m, by omega, .link hdot hback hlink inner has, hbs⟩

/-- Where names lead, they lead by way of the ends of their links. -/
theorem Leads.follows (h : fs.Leads l ns l') : ∃ k, fs.Follows k l ns l' := by
  induction h with
  | here => exact ⟨0, .here⟩
  | dot hn _ ih => exact ih.imp fun _ h => .dot hn h
  | back hn _ ih => exact ih.imp fun _ h => .back hn h
  | name hdot hback hlink _ ih => exact ih.imp fun _ h => .name hdot hback hlink h
  | link hdot hback hlink _ ih =>
    obtain ⟨k, h⟩ := ih
    obtain ⟨i, j, m, -, hinner, hrest⟩ := h.split
    exact ⟨_, .link hdot hback hlink hinner hrest⟩

/-- Names lead to one location, and over one number of links. -/
theorem Follows.unique {j k : Nat} {l'' : Location} (h : fs.Follows j l ns l') (h' : fs.Follows k l ns l'') : j = k ∧ l' = l'' := by
  induction h generalizing k l'' with
  | here =>
    cases h'
    exact ⟨rfl, rfl⟩
  | dot hn _ ih =>
    cases h' with
    | dot _ rest => exact ih rest
    | back hn' => exact absurd (hn.symm.trans hn') (by decide)
    | name hdot => exact absurd hn hdot
    | link hdot => exact absurd hn hdot
  | back hn _ ih =>
    cases h' with
    | dot hn' => exact absurd (hn.symm.trans hn') (by decide)
    | back _ rest => exact ih rest
    | name _ hback => exact absurd hn hback
    | link _ hback => exact absurd hn hback
  | name hdot hback hlink _ ih =>
    cases h' with
    | dot hn => exact absurd hn hdot
    | back hn => exact absurd hn hback
    | name _ _ _ rest => exact ih rest
    | link _ _ hlink' => exact absurd hlink' (hlink _)
  | link hdot hback hlink _ _ ihinner ihrest =>
    cases h' with
    | dot hn => exact absurd hn hdot
    | back hn => exact absurd hn hback
    | name _ _ hlink' => exact absurd hlink (hlink' _)
    | link _ _ hlink' inner rest =>
      obtain rfl := Node.link.inj (Option.some.inj (hlink.symm.trans hlink'))
      obtain ⟨rfl, rfl⟩ := ihinner inner
      obtain ⟨rfl, rfl⟩ := ihrest rest
      exact ⟨rfl, rfl⟩

/-- Where names lead there is no link left. -/
theorem Follows.resolved {k : Nat} (h : fs.Follows k l ns l') (hl : fs.Resolved l) (hns : Path.AreSteps ns) : fs.Resolved l' := by
  induction h with
  | here => exact hl
  | dot _ _ ih => exact ih hl hns.tail
  | back _ _ ih => exact ih hl.dropLast hns.tail
  | name hdot hback hlink _ ih => exact ih (hl.snoc (hns.isName List.mem_cons_self hdot hback) hlink) hns.tail
  | link _ _ _ _ _ ihinner ihrest => exact ihrest (ihinner (hl.targetStart _) (areSteps_targetNames _)) hns.tail

theorem Leads.resolved (h : fs.Leads l ns l') (hl : fs.Resolved l) (hns : Path.AreSteps ns) : fs.Resolved l' := by
  obtain ⟨_, h⟩ := h.follows
  exact h.resolved hl hns

theorem Leads.append {m : Location} {ms : List String} (h : fs.Leads l ns m) (h' : fs.Leads m ms l') : fs.Leads l (ns ++ ms) l' := by
  induction h with
  | here => exact h'
  | dot hn _ ih => exact .dot hn (ih h')
  | back hn _ ih => exact .back hn (ih h')
  | name hdot hback hlink _ ih => exact .name hdot hback hlink (ih h')
  | @link _ _ _ target ns hdot hback hlink _ ih =>
    refine .link hdot hback hlink ?_
    show fs.Leads _ (targetNames target ++ (ns ++ ms)) _
    rw [← List.append_assoc]
    exact ih h'

theorem Follows.leads {k : Nat} (h : fs.Follows k l ns l') : fs.Leads l ns l' := by
  induction h with
  | here => exact .here
  | dot hn _ ih => exact .dot hn ih
  | back hn _ ih => exact .back hn ih
  | name hdot hback hlink _ ih => exact .name hdot hback hlink ih
  | link hdot hback hlink _ _ ihinner ihrest => exact .link hdot hback hlink (ihinner.append ihrest)

/-- From the root names lead by way of a location without links if they begin with its names. -/
theorem Leads.of_append {d : Location} (h : fs.Leads [] (d ++ ns) l) (hd : fs.Resolved d) : fs.Leads d ns l := by
  obtain ⟨_, h⟩ := h.follows
  obtain ⟨_, _, m, -, hto, hfrom⟩ := h.split
  obtain rfl : m = d := hto.leads.unique hd.leads_self
  exact hfrom.leads

/-! ## What to check of the nodes -/

theorem mem_nodes_of_node? {node : Node} (h : fs.node? l = some node) : l = [] ∨ (l, node) ∈ fs.nodes := by
  unfold node? at h
  split at h
  · exact .inl ‹_›
  · obtain ⟨before, after, hnodes, -⟩ := List.lookup_eq_some_iff.mp h
    refine .inr ?_
    rw [hnodes]
    exact List.mem_append_right _ List.mem_cons_self

/-- The system takes the name of a file. -/
def takesName (n : String) : Bool :=
  !n.toList.contains '/' && n ≠ "" && n ≠ "." && n ≠ ".." && n.utf8ByteSize ≤ maxName && !n.toList.contains '\x00'

/-- A node may stand where it stands. -/
def isPlanted (fs : FileSystem) (e : Location × Node) : Bool :=
  fs.node? e.1.dropLast = some .directory && e.1.all takesName &&
    match e.2 with
    | .link target => !target.toList.contains '\x00'
    | _ => true

theorem takesName_iff {n : String} : takesName n = true ↔ Path.IsName n ∧ n.utf8ByteSize ≤ maxName ∧ '\x00' ∉ n.toList := by
  simp only [takesName, Bool.and_eq_true, decide_eq_true_eq, Bool.not_eq_true', List.contains_eq_mem, decide_eq_false_iff_not]
  constructor
  · rintro ⟨⟨⟨⟨⟨hslash, hempty⟩, hdot⟩, hback⟩, hlen⟩, hnul⟩
    exact ⟨⟨hslash, hempty, hdot, hback⟩, hlen, hnul⟩
  · rintro ⟨hname, hlen, hnul⟩
    exact ⟨⟨⟨⟨⟨hname.slash, hname.empty⟩, hname.dot⟩, hname.parent⟩, hlen⟩, hnul⟩

theorem planted_of_nodes (h : fs.nodes.all fs.isPlanted = true) : fs.Planted := by
  rw [List.all_eq_true] at h
  have hchild {l : Location} {n : String} (hsome : fs.node? (l ++ [n]) ≠ none) : ∃ node, fs.isPlanted (l ++ [n], node) = true := by
    obtain ⟨node, hnode⟩ := Option.ne_none_iff_exists'.mp hsome
    exact ⟨node, h _ ((mem_nodes_of_node? hnode).resolve_left (append_ne_nil l n))⟩
  have hname {l : Location} {n : String} (hsome : fs.node? (l ++ [n]) ≠ none) : takesName n = true := by
    obtain ⟨node, hplanted⟩ := hchild hsome
    simp only [isPlanted, Bool.and_eq_true, List.all_eq_true] at hplanted
    exact hplanted.1.2 n (List.mem_append_right _ (List.mem_singleton_self n))
  refine ⟨fun l n hsome => ?_, fun l n hsome => (takesName_iff.mp (hname hsome)).1, fun l n hsome => (takesName_iff.mp (hname hsome)).2,
    fun l target hlink => ?_⟩
  · obtain ⟨node, hplanted⟩ := hchild hsome
    simp only [isPlanted, Bool.and_eq_true, decide_eq_true_eq, List.dropLast_concat] at hplanted
    exact hplanted.1.1
  · rcases mem_nodes_of_node? hlink with rfl | hmem
    · cases hlink
    · have hplanted := h _ hmem
      simp only [isPlanted, Bool.and_eq_true] at hplanted
      simpa using hplanted.2

/-- No link leads to itself if every link leads somewhere. -/
theorem loopFree_of_nodes
    (h : ∀ l target, (l, .link target) ∈ fs.nodes → ∃ m, fs.Leads (targetStart target l.dropLast) (targetNames target) m) :
    fs.LoopFree := by
  have hleads (l : Location) (ns : List String) : ∃ l', fs.Leads l ns l' := by
    induction ns generalizing l with
    | nil => exact ⟨l, .here⟩
    | cons n ns ih =>
      by_cases hdot : n = "."
      · exact (ih l).imp fun _ h => .dot hdot h
      by_cases hback : n = ".."
      · exact (ih l.dropLast).imp fun _ h => .back hback h
      by_cases hlink : ∃ target, fs.node? (l ++ [n]) = some (.link target)
      · obtain ⟨target, hlink⟩ := hlink
        obtain ⟨m, hm⟩ := h _ _ ((mem_nodes_of_node? hlink).resolve_left (append_ne_nil l n))
        rw [List.dropLast_concat] at hm
        exact (ih m).imp fun _ hrest => .link hdot hback hlink (hm.append hrest)
      · exact (ih (l ++ [n])).imp fun _ hrest => .name hdot hback (fun target ht => hlink ⟨target, ht⟩) hrest
  exact hleads []

/-! ## Walks without links -/

/-- The system walks to a node along its own names. -/
theorem Planted.walks (h : fs.Planted) (follow : Bool) (k : Nat) (hnode : fs.node? l ≠ none)
    (hlink : follow = false ∨ ∀ target, fs.node? l ≠ some (.link target)) : fs.Walks follow k [] l l := by
  induction l using List.reverseRecOn generalizing follow with
  | nil => exact .here
  | append_singleton l n ih =>
    have hdir := h.parent l n hnode
    have hn := h.isName l n hnode
    have hwalk : fs.Walks true k [] l l := ih true (by simp [hdir]) (.inr (by simp [hdir]))
    exact hwalk.snoc hdir ⟨hn.dot, hn.parent⟩ (h.name l n hnode).1 hlink

theorem Planted.nulFree (h : fs.Planted) (hnode : fs.node? l ≠ none) : NulFree l := by
  induction l using List.reverseRecOn with
  | nil => exact nofun
  | append_singleton l n ih =>
    refine (ih (by simp [h.parent l n hnode])).append fun m hm => ?_
    rw [List.mem_singleton.mp hm]
    exact (h.name l n hnode).2

/-- No link is above a node. -/
theorem Planted.resolved (h : fs.Planted) (hnode : fs.node? l ≠ none) (hlink : ∀ target, fs.node? l ≠ some (.link target)) :
    fs.Resolved l := by
  induction l using List.reverseRecOn with
  | nil => exact .root
  | append_singleton l n ih =>
    have hdir := h.parent l n hnode
    exact (ih (by simp [hdir]) (by simp [hdir])).snoc (h.isName l n hnode) hlink

/-- A walk to a location without links ends there. -/
theorem Walks.eq_of_resolved {k : Nat} (h : fs.Walks true k [] l l') (hl : fs.Resolved l) : l' = l := h.leads.unique hl.leads_self

/-- No link is followed on the way to a location without links. -/
theorem walk_ne_tooManyLinks {follow : Bool} {k : Nat} (hl : fs.Resolved (l ++ ns)) : fs.walk follow k l ns ≠ .error .tooManyLinks := by
  induction ns generalizing l with
  | nil =>
    rw [walk]
    rintro ⟨⟩
  | cons n ns ih =>
    have hn := hl.names n (List.mem_append_right _ List.mem_cons_self)
    have happend : l ++ n :: ns = (l ++ [n]) ++ ns := by rw [List.append_assoc]; rfl
    rw [happend] at hl
    rw [walk]
    split
    · rintro ⟨⟩
    · rintro ⟨⟩
    · rintro ⟨⟩
    · rw [if_neg hn.dot, if_neg hn.parent]
      split
      · rintro ⟨⟩
      · split
        · split <;> rintro ⟨⟩
        · rename_i target hnode
          exact absurd hnode (hl.noLink _ (List.prefix_append _ _) target)
        · exact ih hl

theorem locate_ne_tooManyLinks {follow : Bool} (hl : fs.Resolved l) :
    fs.locate follow cwd ⟨.slash, l⟩ ≠ .error (.system .tooManyLinks) := by
  intro h
  unfold locate at h
  split at h
  · cases h
  split at h
  · cases h
  · obtain ⟨f, hwalk, hf⟩ := mapError_eq_error_iff.mp h
    obtain rfl := PathFault.system.inj hf
    exact walk_ne_tooManyLinks (l := []) hl hwalk

/-- What the system finds at a location without links is the node that stands there. -/
theorem stat_eq_ok_iff_of_resolved (hplanted : fs.Planted) (hl : fs.Resolved l) {node : Node} :
    fs.stat cwd ⟨.slash, l⟩ = .ok node ↔ (⟨.slash, l⟩ : Path).Fits ∧ fs.node? l = some node := by
  rw [stat_eq_ok_iff]
  constructor
  · rintro ⟨l', hl', hnode⟩
    obtain ⟨hfits, hwalks⟩ := locate_eq_ok_iff.mp hl'
    obtain rfl : l' = l := hwalks.eq_of_resolved hl
    exact ⟨hfits, hnode⟩
  · rintro ⟨hfits, hnode⟩
    exact ⟨l, locate_eq_ok_iff.mpr ⟨hfits, hplanted.walks true _ (by simp [hnode]) (.inr (hl.noLink l (List.prefix_refl l)))⟩, hnode⟩

theorem content?_eq_some_iff {bs : Bytes} : fs.content? l = some bs ↔ fs.node? l = some (.file bs) := by
  unfold content?
  split <;> simp_all

/-- A file at a location without links is found, unless its path is too long to ask for. -/
theorem stat_of_content (hplanted : fs.Planted) (hl : fs.Resolved l) {bs : Bytes} (hcontent : fs.content? l = some bs) (cwd : Location) :
    fs.stat cwd ⟨.slash, l⟩ = .ok (.file bs) ∨ fs.stat cwd ⟨.slash, l⟩ = .error (.system .nameTooLong) := by
  have hnode := content?_eq_some_iff.mp hcontent
  have hnul := nulFree_iff.mpr (hplanted.nulFree (l := l) (by simp [hnode]))
  by_cases hfits : (⟨.slash, l⟩ : Path).text.utf8ByteSize ≤ maxPath
  · exact .inl ((stat_eq_ok_iff_of_resolved hplanted hl).mpr ⟨⟨hnul, hfits⟩, hnode⟩)
  · refine .inr ?_
    rw [stat, locate, if_neg (by simpa using hnul), if_pos (Nat.lt_of_not_le hfits)]
    rfl

/-- Whether there is a file at a location without links the system tells, unless the path is too long to ask for. -/
theorem leadsToFile_of_resolved (hplanted : fs.Planted) (hl : fs.Resolved l) (cwd : Location) :
    (∃ bs, fs.leadsToFile cwd ⟨.slash, l⟩ = .ok true ∧ fs.content? l = some bs ∧ fs.read cwd ⟨.slash, l⟩ = .ok bs) ∨
      (fs.leadsToFile cwd ⟨.slash, l⟩ = .ok false ∧ fs.content? l = none) ∨ fs.leadsToFile cwd ⟨.slash, l⟩ = .error .nameTooLong := by
  cases hcontent : fs.content? l with
  | some bs =>
    rcases stat_of_content hplanted hl hcontent cwd with hstat | hstat
    · refine .inl ⟨bs, ?_, rfl, read_eq_ok_iff.mpr (stat_eq_ok_iff.mp hstat)⟩
      rw [leadsToFile, hstat]
    · refine .inr (.inr ?_)
      rw [leadsToFile, hstat]
  | none =>
    have hfile (bs : Bytes) : fs.stat cwd ⟨.slash, l⟩ ≠ .ok (.file bs) := by
      intro hstat
      obtain ⟨-, hnode⟩ := (stat_eq_ok_iff_of_resolved hplanted hl).mp hstat
      rw [content?_eq_some_iff.mpr hnode] at hcontent
      nomatch hcontent
    refine .inr ?_
    unfold leadsToFile
    split
    · rename_i bs hstat
      exact absurd hstat (hfile bs)
    · exact .inl ⟨rfl, rfl⟩
    · exact .inr rfl
    · exact .inl ⟨rfl, rfl⟩

/-- The link that can be seen at a location behind one without links is the one that stands there. -/
theorem linkAt?_eq_some_iff (hplanted : fs.Planted) (hl : fs.Resolved l) (hn : Path.IsName n) {target : String} :
    fs.linkAt? (l ++ [n]) = some target ↔ fs.node? (l ++ [n]) = some (.link target) := by
  constructor
  · intro h
    unfold linkAt? at h
    split at h
    · rename_i l' hwalk
      split at h
      · rename_i found hnode
        obtain rfl := Option.some.inj h
        obtain ⟨d, hd, -, -, hend⟩ := (walks_of_walk hwalk).of_snoc ⟨hn.dot, hn.parent⟩
        obtain rfl : d = l := hd.eq_of_resolved hl
        rw [hend (.inl rfl)] at hnode
        exact hnode
      · nomatch h
    · nomatch h
  · intro h
    have hwalk := (hplanted.walks (l := l ++ [n]) false maxLinks (by simp [h]) (.inl rfl)).walk
    rw [linkAt?, hwalk]
    simp only [h]

theorem linkAt?_eq_none_iff (hplanted : fs.Planted) (hl : fs.Resolved l) (hn : Path.IsName n) :
    fs.linkAt? (l ++ [n]) = none ↔ ∀ target, fs.node? (l ++ [n]) ≠ some (.link target) := by
  rw [Option.eq_none_iff_forall_ne_some]
  exact forall_congr' fun target => not_congr (linkAt?_eq_some_iff hplanted hl hn)

/-! ## The way links are followed -/

/-- A link that is being followed: to get to the end of its target takes `k` links at least. -/
structure IsOpen (fs : FileSystem) (k : Nat) (a : Location) : Prop where
  way : ∃ l n target j m, a = l ++ [n] ∧ fs.node? a = some (.link target) ∧
    fs.Follows j (targetStart target l) (targetNames target) m ∧ k ≤ j

theorem IsOpen.mono {j k : Nat} {a : Location} (h : fs.IsOpen k a) (hle : j ≤ k) : fs.IsOpen j a := by
  obtain ⟨l, n, target, i, m, ha, hnode, hfollows, hk⟩ := h.way
  exact ⟨l, n, target, i, m, ha, hnode, hfollows, Nat.le_trans hle hk⟩

/-- The links that stand at different locations are not more than the nodes. -/
theorem length_le_of_links {ls : List Location} (hnodup : ls.Nodup) (hnodes : ∀ l ∈ ls, l ≠ [] ∧ fs.node? l ≠ none) :
    ls.length ≤ fs.nodes.length := by
  have hsub : ls ⊆ fs.nodes.map Prod.fst := by
    intro l hl
    obtain ⟨hne, hnode⟩ := hnodes l hl
    rw [node?, if_neg hne] at hnode
    obtain ⟨e, he, rfl⟩ := lookup_isSome_iff.mp (Option.isSome_iff_ne_none.mpr hnode)
    exact List.mem_map_of_mem he
  simpa using (List.subperm_of_subset hnodup hsub).length_le

/-- Names that lead somewhere are followed to there: no link is met again while it is being followed, and there are not more links to
follow at once than nodes. -/
theorem Follows.followNames {k : Nat} (hplanted : fs.Planted) (h : fs.Follows k l ns l') (hl : fs.Resolved l) (hns : Path.AreSteps ns)
    {depth : Nat} {active : List Location} (hnodup : active.Nodup) (hopen : ∀ a ∈ active, fs.IsOpen k a)
    (hdepth : fs.nodes.length ≤ depth + active.length) : fs.followNames depth active l ns = ⟨l', true⟩ := by
  induction h generalizing depth active with
  | here => rw [FileSystem.followNames]
  | dot hn _ ih =>
    rw [FileSystem.followNames, if_pos hn]
    exact ih hl hns.tail hnodup hopen hdepth
  | back hn _ ih =>
    rw [FileSystem.followNames, if_neg (by rw [hn]; decide), if_pos hn]
    exact ih hl.dropLast hns.tail hnodup hopen hdepth
  | name hdot hback hlink _ ih =>
    have hname := hns.isName List.mem_cons_self hdot hback
    rw [FileSystem.followNames, if_neg hdot, if_neg hback, (linkAt?_eq_none_iff hplanted hl hname).mpr hlink]
    exact ih (hl.snoc hname hlink) hns.tail hnodup hopen hdepth
  | @link j k l m l' n target ns hdot hback hlink inner rest ihinner ihrest =>
    have hname := hns.isName List.mem_cons_self hdot hback
    -- to follow it again would take as many links as it takes now, but some are behind
    have hfresh : l ++ [n] ∉ active := by
      intro hmem
      obtain ⟨l₀, n₀, target₀, i, m₀, ha, hnode, hfollows, hle⟩ := (hopen _ hmem).way
      obtain ⟨rfl, hn⟩ := List.append_inj' ha rfl
      obtain rfl := Node.link.inj (Option.some.inj (hnode.symm.trans hlink))
      obtain ⟨rfl, -⟩ := hfollows.unique inner
      omega
    have hlinks : ∀ a ∈ (l ++ [n]) :: active, a ≠ [] ∧ fs.node? a ≠ none := by
      intro a ha
      rcases List.mem_cons.mp ha with rfl | ha
      · exact ⟨append_ne_nil l n, by simp [hlink]⟩
      · obtain ⟨l₀, n₀, _, _, _, rfl, hnode, -⟩ := (hopen a ha).way
        exact ⟨append_ne_nil l₀ n₀, by simp [hnode]⟩
    have hmore := length_le_of_links (List.nodup_cons.mpr ⟨hfresh, hnodup⟩) hlinks
    rw [List.length_cons] at hmore
    obtain ⟨depth, rfl⟩ : ∃ d, depth = d + 1 := Nat.exists_eq_succ_of_ne_zero (by omega)
    have hinner : fs.followNames depth ((l ++ [n]) :: active) (targetStart target l) (targetNames target) = ⟨m, true⟩ := by
      refine ihinner (hl.targetStart target) (areSteps_targetNames target) (List.nodup_cons.mpr ⟨hfresh, hnodup⟩) ?_ ?_
      · intro a ha
        rcases List.mem_cons.mp ha with rfl | ha
        · exact ⟨l, n, target, j, m, rfl, hlink, inner, Nat.le_refl j⟩
        · exact (hopen a ha).mono (by omega)
      · rw [List.length_cons]
        omega
    have hcontains : active.contains (l ++ [n]) = false := by simpa using hfresh
    rw [FileSystem.followNames, if_neg hdot, if_neg hback, (linkAt?_eq_some_iff hplanted hl hname).mpr hlink]
    simp only [hcontains, Bool.false_eq_true, if_false, hinner, if_true]
    refine ihrest (inner.resolved (hl.targetStart target) (areSteps_targetNames target)) hns.tail hnodup (fun a ha => ?_) hdepth
    exact (hopen a ha).mono (by omega)

/-! ## Real paths -/

theorem realNames_of_leads (hplanted : fs.Planted) (hns : Path.AreSteps ns) (h : fs.Leads [] ns l) : fs.realNames ns = l := by
  obtain ⟨k, hfollows⟩ := h.follows
  have hnames := (h.resolved .root hns).names
  have hfilter : l.filter (fun n => decide (n ≠ ".")) = l := by
    rw [List.filter_eq_self]
    exact fun n hn => decide_eq_true (hnames n hn).dot
  have hfollowed : fs.followNames fs.nodes.length [] [] ns = ⟨l, true⟩ :=
    hfollows.followNames hplanted .root hns List.nodup_nil nofun (Nat.le_add_right _ _)
  rw [realNames, hfollowed, hfilter, dropParents_of_areNames hnames]
  rfl

/-- The real path of a path is where its names lead. -/
theorem realPath_of_leads (hplanted : fs.Planted) (hcwd : Path.AreNames cwd) (hp : Path.AreSteps p.names) (hfree : NulFree p.names)
    (h : fs.Leads [] ((⟨.slash, cwd⟩ : Path).join p).names l) : fs.realPath cwd p = .ok l := by
  have hreal := realNames_of_leads hplanted (Path.areSteps_join hcwd.areSteps hp) h
  have hlocate : fs.locate true [] ⟨.slash, l⟩ ≠ .error (.system .tooManyLinks) :=
    locate_ne_tooManyLinks (h.resolved .root (Path.areSteps_join hcwd.areSteps hp))
  rw [realPath, nulFree_iff.mpr hfree, if_neg Bool.false_ne_true]
  -- `hlocate` rules out the other answer
  simp only [hreal]

/-- Where no link leads to itself, the real path of a path is where its names lead, and every path without a NUL has one. -/
theorem realPath_eq_ok_iff (hplanted : fs.Planted) (hloops : fs.LoopFree) (hcwd : Path.AreNames cwd) (hp : Path.AreSteps p.names) :
    fs.realPath cwd p = .ok l ↔ NulFree p.names ∧ fs.Leads [] ((⟨.slash, cwd⟩ : Path).join p).names l := by
  constructor
  · intro h
    have hfree : NulFree p.names := by
      by_contra hnul
      rw [← nulFree_iff, Bool.not_eq_false] at hnul
      rw [realPath, if_pos hnul] at h
      cases h
    obtain ⟨l', hl'⟩ := hloops ((⟨.slash, cwd⟩ : Path).join p).names
    obtain rfl : l' = l := Except.ok.inj ((realPath_of_leads hplanted hcwd hp hfree hl').symm.trans h)
    exact ⟨hfree, hl'⟩
  · rintro ⟨hfree, hleads⟩
    exact realPath_of_leads hplanted hcwd hp hfree hleads

end Files.FileSystem

end ScriptLoader
