import ScriptLoader.Address
import ScriptLoader.Proofs.Files.Names
import ScriptLoader.Proofs.Uri.File
import ScriptLoader.Syntax.Specifier

/-!
# Relative names in a document

A relative name that is read against an address is again an address, with the scheme and the authority of the document and a path from
the root (`join_relative`), whatever the name and the path of the document are. What could go wrong is that the merged path begins
with two slashes, so that its first name would be read as an authority (`take_two_mergedPath`).
-/

namespace ScriptLoader.Uri

open Text

/-- Nothing in the text is ignored when it is read as a reference. -/
def Solid (cs : List Char) : Prop := ∀ c ∈ cs, c ≠ '\t' ∧ c ≠ '\r' ∧ c ≠ '\n'

instance (cs : List Char) : Decidable (Solid cs) := List.decidableBAll (fun c => c ≠ '\t' ∧ c ≠ '\r' ∧ c ≠ '\n') cs

theorem Solid.mono {cs ds : List Char} (h : Solid cs) (hsub : ∀ d ∈ ds, d ∈ cs) : Solid ds := fun d hd => h d (hsub d hd)

theorem Solid.append {cs ds : List Char} (h : Solid cs) (h' : Solid ds) : Solid (cs ++ ds) := fun c hc =>
  (List.mem_append.mp hc).elim (h c) (h' c)

theorem solid_cleaned (s : String) : Solid (cleaned s) := by
  intro c hc
  have hkept := (List.mem_filter.mp hc).2
  simpa [and_assoc] using hkept

/-- A text that begins with a visible character is read as it is if nothing in it is ignored. -/
theorem cleaned_of_solid {s : String} {c : Char} {cs : List Char} (hs : s.toList = c :: cs) (hvisible : 0x20 < c.toNat)
    (h : Solid s.toList) : cleaned s = s.toList := by
  have hdrop : (s.toList.dropWhile fun c => decide (c.toNat ≤ 0x20)) = s.toList := by
    rw [hs, List.dropWhile_cons, if_neg]
    simpa using hvisible
  rw [cleaned, hdrop, List.filter_eq_self]
  intro d hd
  simp [h d hd]

theorem mem_of_mem_divide {mark c : Char} {cs : List Char} (h : c ∈ (divide mark cs).1 ∨ c ∈ (divide mark cs).2) : c ∈ cs := by
  rcases h with h | h
  · exact (List.takeWhile_sublist _).subset h
  · exact ((List.drop_sublist 1 _).trans (List.dropWhile_sublist _)).subset h

/-- The marks that end an authority. -/
def EndsAuthority (c : Char) : Prop := c = '/' ∨ c = '?' ∨ c = '#'

theorem mem_authorityOf {c : Char} {cs : List Char} (h : c ∈ (authorityOf cs).1) : c ∈ cs ∧ ¬EndsAuthority c := by
  unfold authorityOf at h
  split at h
  · rename_i tail
    have hc := List.all_eq_true.mp List.all_takeWhile c h
    refine ⟨List.mem_cons_of_mem _ (List.mem_cons_of_mem _ ((List.takeWhile_sublist _).subset h)), ?_⟩
    simpa [EndsAuthority, and_assoc] using hc
  · nomatch h

theorem authorityOf_suffix (cs : List Char) : (authorityOf cs).2 <:+ cs := by
  unfold authorityOf
  split
  · exact (List.dropWhile_suffix _).trans ((List.suffix_cons _ _).trans (List.suffix_cons _ _))
  · exact List.suffix_refl _

theorem schemeOf?_suffix {cs name tail : List Char} (h : schemeOf? cs = some (name, tail)) : tail <:+ cs := by
  unfold schemeOf? at h
  split at h
  · rename_i c scheme d rest hcut
    split at h
    · obtain ⟨-, rfl⟩ := Prod.mk.inj (Option.some.inj h)
      have hrest : d :: rest <:+ cs := by
        rw [← (Prod.mk.inj hcut).2]
        exact List.dropWhile_suffix _
      exact (List.suffix_cons _ _).trans hrest
    · nomatch h
  · nomatch h

/-- The parts of a reference that has been read: its authority is one and ends where it should, and nothing in it is ignored. -/
structure Reference.Whole (r : Reference) : Prop where
  authority : authorityFault? r.authority.toList = none
  separate : ∀ c ∈ r.authority.toList, ¬EndsAuthority c
  solidAuthority : Solid r.authority.toList
  solidPath : Solid r.path.toList
  solidQuery : Solid r.query.toList
  solidFragment : Solid r.fragment.toList

theorem Reference.whole_of_tail (scheme : String) {tail : List Char} (hsolid : Solid tail)
    (hfault : authorityFault? (authorityOf tail).1 = none) :
    Whole ⟨scheme, String.ofList (authorityOf tail).1, String.ofList (divide '?' (divide '#' (authorityOf tail).2).1).1,
      String.ofList (divide '?' (divide '#' (authorityOf tail).2).1).2, String.ofList (divide '#' (authorityOf tail).2).2⟩ := by
  have hbehind : Solid (authorityOf tail).2 := hsolid.mono fun c hc => (authorityOf_suffix _).subset hc
  have hfront : Solid (divide '#' (authorityOf tail).2).1 := hbehind.mono fun c hc => mem_of_mem_divide (.inl hc)
  constructor <;> simp only [String.toList_ofList]
  · exact hfault
  · exact fun c hc => (mem_authorityOf hc).2
  · exact hsolid.mono fun c hc => (mem_authorityOf hc).1
  · exact hfront.mono fun c hc => mem_of_mem_divide (.inl hc)
  · exact hfront.mono fun c hc => mem_of_mem_divide (.inr hc)
  · exact hbehind.mono fun c hc => mem_of_mem_divide (.inr hc)

theorem Reference.whole_of_parse {scheme s : String} {r : Reference} (h : parse scheme s = .ok r) : r.Whole := by
  unfold parse at h
  cases hscheme : schemeOf? (cleaned s) with
  | none =>
    simp only [hscheme] at h
    split at h
    · nomatch h
    · rename_i hfault
      exact Except.ok.inj h ▸ whole_of_tail _ (solid_cleaned s) hfault
  | some found =>
    simp only [hscheme] at h
    split at h
    · nomatch h
    · rename_i hfault
      have hsolid : Solid found.2 := (solid_cleaned s).mono fun c hc => (schemeOf?_suffix hscheme).subset hc
      exact Except.ok.inj h ▸ whole_of_tail _ hsolid hfault

/-! ## The text of an address -/

/-- An address as it is written: the scheme, the authority and what is behind it, which begins at the root. -/
def written (scheme authority : String) (rest : List Char) : String :=
  String.ofList (scheme.toList ++ ':' :: '/' :: '/' :: (authority.toList ++ '/' :: rest))

/-- An address is read as it is written. -/
theorem parse_written {scheme authority : String} {rest : List Char} (hscheme : scheme ∈ Address.schemes)
    (hfault : authorityFault? authority.toList = none) (hseparate : ∀ c ∈ authority.toList, ¬EndsAuthority c)
    (hsolid : Solid (authority.toList ++ '/' :: rest)) :
    Reference.parse "" (written scheme authority rest) =
      .ok ⟨scheme, authority, String.ofList (divide '?' (divide '#' ('/' :: rest)).1).1,
        String.ofList (divide '?' (divide '#' ('/' :: rest)).1).2, String.ofList (divide '#' ('/' :: rest)).2⟩ := by
  have hauthority : authorityOf ('/' :: '/' :: (authority.toList ++ '/' :: rest)) = (authority.toList, '/' :: rest) := by
    have hkeep : ∀ c ∈ authority.toList, (!(decide (c = '/') || decide (c = '?') || decide (c = '#'))) = true := by
      intro c hc
      simpa [EndsAuthority, and_assoc] using hseparate c hc
    rw [authorityOf, cut, List.takeWhile_append_of_pos hkeep, List.dropWhile_append_of_pos hkeep]
    simp
  have hclean : cleaned (written scheme authority rest) =
      scheme.toList ++ ':' :: '/' :: '/' :: (authority.toList ++ '/' :: rest) := by
    have hbehind : Solid (':' :: '/' :: '/' :: (authority.toList ++ '/' :: rest)) := by
      intro c hc
      simp only [List.mem_cons] at hc
      rcases hc with rfl | rfl | rfl | hc
      case inr.inr.inr => exact hsolid c hc
      all_goals decide
    have hsolid' : Solid scheme.toList := by
      simp only [Address.schemes, List.mem_cons, List.not_mem_nil, or_false] at hscheme
      rcases hscheme with rfl | rfl | rfl <;> decide
    have hfirst : ∃ c cs, scheme.toList = c :: cs ∧ 0x20 < c.toNat := by
      simp only [Address.schemes, List.mem_cons, List.not_mem_nil, or_false] at hscheme
      rcases hscheme with rfl | rfl | rfl <;> exact ⟨_, _, rfl, by decide⟩
    obtain ⟨c, cs, hcs, hvisible⟩ := hfirst
    have htext : (written scheme authority rest).toList = c :: (cs ++ ':' :: '/' :: '/' :: (authority.toList ++ '/' :: rest)) := by
      rw [written, String.toList_ofList, hcs, List.cons_append]
    rw [cleaned_of_solid htext hvisible, written, String.toList_ofList]
    rw [written, String.toList_ofList]
    exact hsolid'.append hbehind
  have hread : schemeOf? (scheme.toList ++ ':' :: '/' :: '/' :: (authority.toList ++ '/' :: rest)) =
      some (scheme.toList, '/' :: '/' :: (authority.toList ++ '/' :: rest)) := by
    simp only [Address.schemes, List.mem_cons, List.not_mem_nil, or_false] at hscheme
    rcases hscheme with rfl | rfl | rfl <;> rfl
  have hlower : lower scheme = scheme := by
    simp only [Address.schemes, List.mem_cons, List.not_mem_nil, or_false] at hscheme
    rcases hscheme with rfl | rfl | rfl <;> decide
  simp only [Reference.parse, hclean, hread, hauthority, hfault, hlower, String.ofList_toList]

/-- What is behind the authority of an address begins with a path from the root. -/
theorem divide_root (mark : Char) (rest : List Char) (h : mark ≠ '/') : ∃ tail, (divide mark ('/' :: rest)).1 = '/' :: tail := by
  refine ⟨rest.takeWhile fun c => !decide (c = mark), ?_⟩
  rw [divide, cut, List.takeWhile_cons, if_pos]
  simpa using h.symm

theorem looksLike_written {scheme : String} (authority : String) (rest : List Char) (hscheme : scheme ∈ Address.schemes) :
    Address.looksLike (written scheme authority rest) = true := by
  rw [Address.looksLike, written, String.toList_ofList]
  simp only [Address.schemes, List.mem_cons, List.not_mem_nil, or_false] at hscheme
  rcases hscheme with rfl | rfl | rfl <;> rfl

/-! ## Merged paths -/

theorem not_mem_of_mem_pieces {sep : Char} {cs p : List Char} (h : p ∈ pieces sep cs) : sep ∉ p := by
  induction cs generalizing p with
  | nil =>
    obtain rfl : p = [] := by simpa [pieces] using h
    exact List.not_mem_nil
  | cons c cs ih =>
    unfold pieces at h
    split at h
    · rcases List.mem_cons.mp h with rfl | h
      · exact List.not_mem_nil
      · exact ih h
    · rename_i hc
      split at h
      · rename_i hnil
        exact absurd hnil (pieces_ne_nil sep cs)
      · rename_i q qs hq
        rcases List.mem_cons.mp h with rfl | h
        · rw [List.mem_cons, not_or]
          exact ⟨fun heq => hc heq.symm, ih (hq ▸ List.mem_cons_self)⟩
        · exact ih (hq ▸ List.mem_cons_of_mem _ h)

/-- Segments are only taken out. -/
theorem resolveDots_sublist (kept segments : List (List Char)) : (resolveDots kept segments).Sublist (kept.reverse ++ segments) := by
  induction segments generalizing kept with
  | nil =>
    simp [resolveDots]
  | cons s rest ih =>
    unfold resolveDots
    split
    · exact (ih _).trans (List.Sublist.append (List.reverse_sublist.mpr (List.tail_sublist kept)) (List.sublist_cons_self s rest))
    · split
      · exact (ih _).trans (List.Sublist.append (List.Sublist.refl _) (List.sublist_cons_self s rest))
      · simpa using ih (s :: kept)

/-- A segment `.` or `..` at the end is taken out itself. -/
theorem resolveDots_snoc_sublist (kept segments : List (List Char)) {s : List Char} (hs : s = ['.'] ∨ s = ['.', '.']) :
    (resolveDots kept (segments ++ [s])).Sublist (kept.reverse ++ segments) := by
  induction segments generalizing kept with
  | nil =>
    rw [List.nil_append, List.append_nil]
    rcases hs with rfl | rfl
    · exact List.Sublist.refl _
    · exact List.reverse_sublist.mpr (List.tail_sublist kept)
  | cons t rest ih =>
    rw [List.cons_append]
    unfold resolveDots
    split
    · exact (ih _).trans (List.Sublist.append (List.reverse_sublist.mpr (List.tail_sublist kept)) (List.sublist_cons_self t rest))
    · split
      · exact (ih _).trans (List.Sublist.append (List.Sublist.refl _) (List.sublist_cons_self t rest))
      · simpa using ih (t :: kept)

/-- Segments of which only the first and the last may be empty; no segment holds a slash. -/
structure Sparse (segments : List (List Char)) : Prop where
  noSlash : ∀ s ∈ segments, '/' ∉ s
  cover : ∃ first inner last, segments.Sublist (first ++ (inner ++ last)) ∧ first.length ≤ 1 ∧ last.length ≤ 1 ∧ ∀ s ∈ inner, s ≠ []

/-- Sparse segments do not begin with two empty ones before another one. -/
theorem Sparse.ne_empty_empty {segments : List (List Char)} (h : Sparse segments) (s : List Char) (rest : List (List Char)) :
    segments ≠ [] :: [] :: s :: rest := by
  rintro rfl
  obtain ⟨first, inner, last, hcover, hfirst, hlast, hinner⟩ := h.cover
  obtain ⟨f, behind, hsplit, hf, hbehind⟩ := List.sublist_append_iff.mp hcover
  obtain ⟨i, l, rfl, hi, hl⟩ := List.sublist_append_iff.mp hbehind
  have hflen := hf.length_le
  have hllen := hl.length_le
  -- Behind the first segment there is an empty one, so nothing of the inner ones is left before it.
  have hnil : i = [] := by
    cases i with
    | nil => rfl
    | cons t i =>
      have ht : t = [] := by
        rcases f with _ | ⟨a, _ | ⟨b, f⟩⟩
        · exact ((List.cons.inj hsplit).1).symm
        · exact ((List.cons.inj (List.cons.inj hsplit).2).1).symm
        · simp only [List.length_cons] at hflen
          omega
      exact absurd ht (hinner t (hi.subset List.mem_cons_self))
  subst hnil
  have hlength := congrArg List.length hsplit
  simp only [List.length_cons, List.length_append, List.nil_append] at hlength
  omega

/-- Sparse segments are put together to a path that does not begin with two slashes. -/
theorem Sparse.take_two_glue {segments : List (List Char)} (h : Sparse segments) : (glue '/' segments).take 2 ≠ ['/', '/'] := by
  have hplain (s : List Char) (hs : s ∈ segments) (tail : List Char) : (s ++ tail).head? = some '/' → s = [] := by
    intro hhead
    cases s with
    | nil => rfl
    | cons c cs =>
      obtain rfl : c = '/' := Option.some.inj hhead
      exact absurd List.mem_cons_self (h.noSlash _ hs)
  intro htwo
  have hslash {cs : List Char} (hcs : cs.take 2 = ['/', '/']) : ∃ ds, cs = '/' :: '/' :: ds := by
    rcases cs with _ | ⟨a, _ | ⟨b, ds⟩⟩
    · nomatch hcs
    · nomatch hcs
    · obtain ⟨ha, hcs⟩ := List.cons.inj hcs
      obtain ⟨hb, -⟩ := List.cons.inj hcs
      exact ⟨ds, by rw [ha, hb]⟩
  obtain ⟨ds, hds⟩ := hslash htwo
  rcases segments with _ | ⟨s, _ | ⟨t, rest⟩⟩
  · nomatch hds
  · have hs := hplain s List.mem_cons_self [] (by rw [List.append_nil]; exact congrArg List.head? hds)
    subst hs
    nomatch hds
  · have hs := hplain s List.mem_cons_self ('/' :: glue '/' (t :: rest)) (congrArg List.head? hds)
    subst hs
    replace hds : glue '/' (t :: rest) = '/' :: ds := (List.cons.inj hds).2
    have hmem : t ∈ [] :: t :: rest := List.mem_cons_of_mem _ List.mem_cons_self
    cases rest with
    | nil =>
      have ht := hplain t hmem [] (by rw [List.append_nil]; exact congrArg List.head? hds)
      subst ht
      nomatch hds
    | cons u rest =>
      have ht := hplain t hmem ('/' :: glue '/' (u :: rest)) (congrArg List.head? hds)
      subst ht
      exact h.ne_empty_empty u rest rfl

/-- The segments of a path in a document are its own and those of the document. -/
theorem mem_pieces_of_mem_mergedSegments {base path s : List Char} (h : s ∈ mergedSegments base path) :
    s ∈ pieces '/' base ∨ s ∈ pieces '/' path := by
  unfold mergedSegments at h
  split at h
  · exact .inr h
  · simp only at h
    generalize hfront : (if (pieces '/' base).getLast? = some [] then pieces '/' base else (pieces '/' base).dropLast) = front at h
    have hpiece : s ∈ front ++ pieces '/' path := by
      simp only [List.mem_append, List.mem_filter, Option.mem_toList] at h ⊢
      rw [← List.mem_append]
      rcases h with (h | ⟨h, -⟩) | h
      · exact List.take_subset _ _ h
      · exact List.drop_subset _ _ (List.dropLast_subset _ h)
      · exact List.drop_subset _ _ (List.mem_of_getLast? h)
    rcases List.mem_append.mp hpiece with hmem | hmem
    · rw [← hfront] at hmem
      split at hmem
      · exact .inl hmem
      · exact .inl (List.dropLast_subset _ hmem)
    · exact .inr hmem

theorem noSlash_mergedSegments {base path s : List Char} (h : s ∈ mergedSegments base path) : '/' ∉ s :=
  (mem_pieces_of_mem_mergedSegments h).elim not_mem_of_mem_pieces not_mem_of_mem_pieces

/-- The segments of a relative path in a document: only the first and the last can be empty. -/
theorem cover_mergedSegments (base : List Char) {path : List Char} (h : path.head? ≠ some '/') :
    ∃ first inner last, mergedSegments base path = first ++ (inner ++ last) ∧ first.length ≤ 1 ∧ last.length ≤ 1 ∧
      ∀ s ∈ inner, s ≠ [] := by
  unfold mergedSegments
  rw [if_neg h]
  simp only
  refine ⟨_, _, _, List.append_assoc _ _ _, List.length_take_le _ _, ?_, ?_⟩
  · cases List.getLast? _ <;> simp
  · intro s hs
    simpa using (List.mem_filter.mp hs).2

/-- The segments that are left of those of a relative path in a document. -/
theorem sparse_resolveDots (base : List Char) {path : List Char} (h : path.head? ≠ some '/') :
    Sparse (resolveDots [] (mergedSegments base path) ++
      if (mergedSegments base path).getLast? = some ['.'] || (mergedSegments base path).getLast? = some ['.', '.'] then [[]] else []) := by
  obtain ⟨first, inner, last, hcover, hfirst, hlast, hinner⟩ := cover_mergedSegments base h
  have hleft := resolveDots_sublist [] (mergedSegments base path)
  constructor
  · intro s hs
    rcases List.mem_append.mp hs with hs | hs
    · exact noSlash_mergedSegments (hleft.subset hs)
    · split at hs
      · rw [List.mem_singleton.mp hs]
        exact List.not_mem_nil
      · nomatch hs
  · split
    · rename_i hends
      obtain ⟨s, hs, hdots⟩ : ∃ s, (mergedSegments base path).getLast? = some s ∧ (s = ['.'] ∨ s = ['.', '.']) := by
        simp only [Bool.or_eq_true, decide_eq_true_eq] at hends
        rcases hends with hends | hends
        · exact ⟨_, hends, .inl rfl⟩
        · exact ⟨_, hends, .inr rfl⟩
      obtain ⟨front, hfront⟩ := List.getLast?_eq_some_iff.mp hs
      have hshort : (resolveDots [] (mergedSegments base path)).Sublist front := by
        rw [hfront]
        exact resolveDots_snoc_sublist [] front hdots
      refine ⟨first, inner, [[]], ?_, hfirst, Nat.le_refl 1, hinner⟩
      rw [← List.append_assoc]
      refine (hshort.trans ?_).append (List.Sublist.refl _)
      have hdrop : front = (first ++ (inner ++ last)).dropLast := by rw [← hcover, hfront, List.dropLast_concat]
      rw [hdrop, ← List.append_assoc]
      rcases last with _ | ⟨z, _ | ⟨y, last⟩⟩
      · rw [List.append_nil]
        exact List.dropLast_sublist _
      · simp
      · simp only [List.length_cons] at hlast
        omega
    · rw [List.append_nil]
      exact ⟨first, inner, last, hcover ▸ hleft, hfirst, hlast, hinner⟩

/-- A relative path does not lead to a path that begins with two slashes. -/
theorem take_two_mergedPath (base : List Char) {path : List Char} (h : path.head? ≠ some '/') :
    (mergedPath base path).take 2 ≠ ['/', '/'] := by
  have htwo := (sparse_resolveDots base h).take_two_glue
  unfold mergedPath
  simp only
  generalize (resolveDots [] (mergedSegments base path) ++
    if (mergedSegments base path).getLast? = some ['.'] || (mergedSegments base path).getLast? = some ['.', '.'] then [[]] else [])
    = left at htwo ⊢
  split
  · decide
  · exact htwo

theorem mem_mergedPath {base path : List Char} {c : Char} (h : c ∈ mergedPath base path) : c = '/' ∨ c ∈ base ∨ c ∈ path := by
  unfold mergedPath at h
  simp only at h
  generalize hdots : (if (mergedSegments base path).getLast? = some ['.'] || (mergedSegments base path).getLast? = some ['.', '.'] then
    [[]] else []) = dots at h
  split at h
  · exact .inl (List.mem_singleton.mp h)
  · rcases mem_glue h with hsep | ⟨s, hs, hc⟩
    · exact .inl hsep
    · rcases List.mem_append.mp hs with hs | hs
      · rcases mem_pieces_of_mem_mergedSegments ((resolveDots_sublist [] _).subset hs) with hs | hs
        · exact .inr (.inl (mem_of_mem_pieces hs hc))
        · exact .inr (.inr (mem_of_mem_pieces hs hc))
      · rw [← hdots] at hs
        split at hs
        · rw [List.mem_singleton.mp hs] at hc
          nomatch hc
        · nomatch hs

/-! ## Relative names -/

theorem mem_splitParameters {scheme : String} {path : List Char} {c : Char}
    (h : c ∈ (splitParameters scheme path).1 ∨ c ∈ (splitParameters scheme path).2) : c ∈ path := by
  unfold splitParameters at h
  split at h
  · simp only [List.mem_append] at h
    have hlast : ∀ d ∈ (path.reverse.takeWhile (· ≠ '/')).reverse, d ∈ path := fun d hd =>
      List.mem_reverse.mp ((List.takeWhile_sublist _).subset (List.mem_reverse.mp hd))
    rcases h with (h | h) | h
    · exact List.take_subset _ _ h
    · exact hlast c (mem_of_mem_divide (.inl h))
    · exact hlast c (mem_of_mem_divide (.inr h))
  · simpa using h

/-- A path with a slash in it does not begin with its parameters. -/
theorem head?_splitParameters (scheme : String) {path : List Char} (h : '/' ∈ path) :
    (splitParameters scheme path).1.head? = path.head? := by
  unfold splitParameters
  split
  · have hshort : ((path.reverse.takeWhile (· ≠ '/')).reverse).length < path.length := by
      have hsplit := List.takeWhile_append_dropWhile (p := fun c => decide (c ≠ '/')) (l := path.reverse)
      have hrest : path.reverse.dropWhile (fun c => decide (c ≠ '/')) ≠ [] := by
        intro hnil
        rw [hnil, List.append_nil] at hsplit
        have hall := List.all_eq_true.mp List.all_takeWhile '/' (hsplit.symm ▸ List.mem_reverse.mpr h)
        simp at hall
      have hlength := congrArg List.length hsplit
      have hpos := List.length_pos_iff.mpr hrest
      simp only [List.length_append, List.length_reverse] at hlength ⊢
      omega
    simp only
    cases path with
    | nil => nomatch h
    | cons c cs =>
      obtain ⟨n, hn⟩ : ∃ n, (c :: cs).length - ((List.takeWhile (fun c => decide (c ≠ '/')) (c :: cs).reverse).reverse).length = n + 1 :=
        ⟨_, (Nat.succ_pred_eq_of_pos (Nat.sub_pos_of_lt hshort)).symm⟩
      rw [hn, List.take_succ_cons]
      rfl
  · rfl

theorem schemeOf?_point (cs : List Char) : schemeOf? ('.' :: cs) = none := by
  unfold schemeOf?
  split
  · rename_i c scheme d rest hcut
    have hfirst := congrArg Prod.fst hcut
    simp only [cut, List.takeWhile_cons] at hfirst
    obtain rfl : '.' = c := (List.cons.inj hfirst).1
    rfl
  · rfl

/-- A relative name is nothing but a path, which begins with a point, and a query and a fragment. -/
theorem parse_relative (scheme : String) {name : String} (h : Syntax.isRelative name = true) :
    ∃ r, Reference.parse scheme name = .ok r ∧ r.scheme = scheme ∧ r.authority = "" ∧ r.plainPath.head? = some '.' := by
  obtain ⟨cs, hcs⟩ : ∃ cs, name.toList = '.' :: '/' :: cs ∨ name.toList = '.' :: '.' :: '/' :: cs := by
    have hstart : "./".toList.isPrefixOf name.toList = true ∨ "../".toList.isPrefixOf name.toList = true := by
      simpa [Syntax.isRelative, Syntax.relativePrefixes] using h
    rcases hstart with hstart | hstart
    · obtain ⟨cs, hcs⟩ := List.isPrefixOf_iff_prefix.mp hstart
      exact ⟨cs, .inl hcs.symm⟩
    · obtain ⟨cs, hcs⟩ := List.isPrefixOf_iff_prefix.mp hstart
      exact ⟨cs, .inr hcs.symm⟩
  have hpath : ∃ path, (divide '?' (divide '#' (cleaned name)).1).1 = '.' :: path ∧ '/' ∈ path := by
    rw [cleaned]
    rcases hcs with hcs | hcs <;> rw [hcs]
    · exact ⟨_, rfl, List.mem_cons_self⟩
    · exact ⟨_, rfl, List.mem_cons_of_mem _ List.mem_cons_self⟩
  obtain ⟨ds, hds⟩ : ∃ ds, cleaned name = '.' :: ds := by
    rw [cleaned]
    rcases hcs with hcs | hcs <;> rw [hcs]
    · exact ⟨_, rfl⟩
    · exact ⟨_, rfl⟩
  obtain ⟨path, hpath, hslash⟩ := hpath
  have hauthority : authorityOf ('.' :: ds) = ([], '.' :: ds) := rfl
  rw [hds] at hpath
  simp only [Reference.parse, hds, schemeOf?_point, hauthority, authorityFault?_nil]
  refine ⟨_, rfl, rfl, rfl, ?_⟩
  rw [Reference.plainPath, String.toList_ofList, hpath, head?_splitParameters scheme (List.mem_cons_of_mem _ hslash)]
  rfl

theorem known_of_mem_schemes {scheme : String} (h : scheme ∈ Address.schemes) :
    relativeSchemes.contains scheme = true ∧ authoritySchemes.contains scheme = true ∧ scheme.isEmpty = false := by
  simp only [Address.schemes, List.mem_cons, List.not_mem_nil, or_false] at h
  rcases h with rfl | rfl | rfl <;> decide

/-- A path as it stands behind an authority: it begins with a slash, which is put there where it is missing. -/
inductive Behind : List Char → List Char → Prop where
  | rooted (tail : List Char) : Behind ('/' :: tail) tail
  | added {tail : List Char} (h : tail.head? ≠ some '/') : Behind tail tail

theorem Behind.mem {path tail : List Char} (h : Behind path tail) {c : Char} (hc : c ∈ tail) : c ∈ path := by
  cases h with
  | rooted => exact List.mem_cons_of_mem _ hc
  | added => exact hc

/-- A reference whose path is not empty and does not begin with two slashes is written as an address. -/
theorem text_eq_written (r : Reference) (hscheme : r.scheme ∈ Address.schemes) (hne : r.path.toList ≠ [])
    (htwo : r.path.toList.take 2 ≠ ['/', '/']) :
    ∃ tail, r.text = written r.scheme r.authority (tail ++ (Reference.marked '?' r.query ++ Reference.marked '#' r.fragment)) ∧
      Behind r.path.toList tail := by
  obtain ⟨-, hauthority, hempty⟩ := known_of_mem_schemes hscheme
  obtain ⟨tail, htail, hbehind⟩ : ∃ tail, r.hierarchy = '/' :: '/' :: (r.authority.toList ++ '/' :: tail) ∧ Behind r.path.toList tail := by
    simp only [Reference.hierarchy, hempty, hauthority, htwo, ne_eq, not_false_eq_true, decide_true, Bool.not_false, Bool.and_self,
      Bool.or_true, if_true]
    rcases hpath : r.path.toList with _ | ⟨c, cs⟩
    · exact absurd hpath hne
    · by_cases hc : c = '/'
      · subst hc
        exact ⟨cs, by simp, .rooted cs⟩
      · exact ⟨c :: cs, by simp [hc], .added (by simpa using hc)⟩
  refine ⟨tail, ?_, hbehind⟩
  simp only [Reference.text, written, hempty, Bool.false_eq_true, if_false, htail]
  simp

theorem solid_marked {mark : Char} {s : String} (hmark : Solid [mark]) (h : Solid s.toList) : Solid (Reference.marked mark s) := by
  unfold Reference.marked
  split
  · exact fun c hc => nomatch hc
  · intro c hc
    rcases List.mem_cons.mp hc with rfl | hc
    · exact hmark _ List.mem_cons_self
    · exact h c hc

theorem mergedPath_ne_nil (base path : List Char) : mergedPath base path ≠ [] := by
  unfold mergedPath
  simp only
  generalize glue '/' _ = merged
  split
  · exact List.cons_ne_nil _ _
  · rename_i hne
    exact fun hnil => hne (by rw [hnil]; rfl)

/-- Parameters do not change how a path begins. -/
theorem take_two_withParameters {path : List Char} (parameters : List Char) (hne : path ≠ []) (htwo : path.take 2 ≠ ['/', '/']) :
    (withParameters path parameters).toList.take 2 ≠ ['/', '/'] := by
  rw [withParameters, String.toList_ofList]
  split
  · exact htwo
  · rcases path with _ | ⟨c, _ | ⟨d, cs⟩⟩
    · exact absurd rfl hne
    · intro h
      exact absurd (List.cons.inj (List.cons.inj h).2).1 (by decide)
    · exact htwo

theorem mem_withParameters {path parameters : List Char} {c : Char} (h : c ∈ (withParameters path parameters).toList) :
    c ∈ path ∨ c = ';' ∨ c ∈ parameters := by
  rw [withParameters, String.toList_ofList] at h
  split at h
  · exact .inl h
  · simpa using h

/-- A reference that is read against another one of the same scheme, where it is nothing but a path that does not begin at the root. -/
theorem against_of_path {b r : Reference} (hscheme : r.scheme ∈ Address.schemes) (hauthority : r.authority = "")
    (hplain : r.plainPath ≠ []) :
    b.against r = ⟨r.scheme, b.authority, withParameters (mergedPath b.plainPath r.plainPath) r.parameters, r.query, r.fragment⟩ := by
  obtain ⟨-, hknown, -⟩ := known_of_mem_schemes hscheme
  have hempty : r.authority.isEmpty = true := by rw [hauthority]; rfl
  have hne : r.plainPath.isEmpty = false := by simpa using hplain
  simp only [Reference.against, hknown, hempty, hne, Bool.not_true, Bool.and_false, Bool.false_and, Bool.false_eq_true, if_false, if_true]

theorem isEmpty_of_isRelative {name : String} (h : Syntax.isRelative name = true) : name.isEmpty = false := by
  rw [Bool.eq_false_iff]
  intro hempty
  rw [String.isEmpty_iff.mp hempty] at h
  exact absurd h (by decide)

/-- What a relative name in a document at an address stands for. -/
theorem join_eq_written {base name : String} {b : Reference} (hb : Reference.parse "" base = .ok b) (hscheme : b.scheme ∈ Address.schemes)
    (hname : Syntax.isRelative name = true) :
    ∃ r tail, Reference.parse b.scheme name = .ok r ∧
      join base name =
        .ok (written b.scheme b.authority (tail ++ (Reference.marked '?' r.query ++ Reference.marked '#' r.fragment))) ∧
      Behind (withParameters (mergedPath b.plainPath r.plainPath) r.parameters).toList tail := by
  obtain ⟨r, hr, hrscheme, hrauthority, hhead⟩ := parse_relative b.scheme hname
  have hbase : base.isEmpty = false := by
    rw [Bool.eq_false_iff]
    intro hempty
    rw [String.isEmpty_iff.mp hempty] at hb
    obtain rfl := Except.ok.inj hb
    exact absurd hscheme (by decide)
  have hplain : r.plainPath ≠ [] := by
    intro hnil
    rw [hnil] at hhead
    nomatch hhead
  have hroot : r.plainPath.head? ≠ some '/' := by
    rw [hhead]
    decide
  have hagainst := against_of_path (b := b) (hrscheme ▸ hscheme) hrauthority hplain
  rw [hrscheme] at hagainst
  have hjoin : join base name = .ok (b.against r).text := by
    obtain ⟨hrelative, -, -⟩ := known_of_mem_schemes hscheme
    simp only [join, hbase, isEmpty_of_isRelative hname, Bool.false_eq_true, if_false, hb, Bind.bind, Except.bind, hr, hrscheme,
      hrelative, decide_true, Bool.and_true, if_true]
    rfl
  have hmerged := mergedPath_ne_nil b.plainPath r.plainPath
  have hne : (withParameters (mergedPath b.plainPath r.plainPath) r.parameters).toList ≠ [] := by
    rw [withParameters, String.toList_ofList]
    split
    · exact hmerged
    · exact fun hnil => hmerged (List.append_eq_nil_iff.mp hnil).1
  have htwo := take_two_withParameters r.parameters hmerged (take_two_mergedPath b.plainPath hroot)
  rw [hagainst] at hjoin
  obtain ⟨tail, htext, hbehind⟩ := text_eq_written
    ⟨b.scheme, b.authority, withParameters (mergedPath b.plainPath r.plainPath) r.parameters, r.query, r.fragment⟩ hscheme hne htwo
  exact ⟨r, tail, hr, by rw [hjoin, htext], hbehind⟩

/-- A relative name in a document at an address is an address with the same scheme and authority. -/
theorem join_relative {base name : String} {b : Reference} (hb : Reference.parse "" base = .ok b) (hscheme : b.scheme ∈ Address.schemes)
    (hname : Syntax.isRelative name = true) :
    ∃ rest, join base name = .ok (written b.scheme b.authority rest) ∧ Solid (b.authority.toList ++ '/' :: rest) := by
  obtain ⟨r, tail, hr, hjoin, hbehind⟩ := join_eq_written hb hscheme hname
  have hwholeBase := Reference.whole_of_parse hb
  have hwhole := Reference.whole_of_parse hr
  refine ⟨_, hjoin, ?_⟩
  have hpath : Solid tail := by
    intro c hc
    rcases mem_withParameters (hbehind.mem hc) with hc | rfl | hc
    · rcases mem_mergedPath hc with rfl | hc | hc
      · decide
      · exact hwholeBase.solidPath c (mem_splitParameters (.inl hc))
      · exact hwhole.solidPath c (mem_splitParameters (.inl hc))
    · decide
    · exact hwhole.solidPath c (mem_splitParameters (.inr hc))
  have hmarks : Solid (Reference.marked '?' r.query ++ Reference.marked '#' r.fragment) :=
    (solid_marked (by decide) hwhole.solidQuery).append (solid_marked (by decide) hwhole.solidFragment)
  have hslash : Solid ['/'] := by decide
  exact hwholeBase.solidAuthority.append (hslash.append (hpath.append hmarks))

/-- How a relative name in a document at an address is read: as an address with the same scheme and authority, whose path begins at the
root. -/
theorem parse_join_relative {base name : String} {b : Reference} (hb : Reference.parse "" base = .ok b)
    (hscheme : b.scheme ∈ Address.schemes) (hname : Syntax.isRelative name = true) :
    ∃ url r path, join base name = .ok url ∧ Address.looksLike url = true ∧ Reference.parse "" url = .ok r ∧ r.scheme = b.scheme ∧
      r.authority = b.authority ∧ r.path.toList = '/' :: path := by
  obtain ⟨rest, hjoin, hsolid⟩ := join_relative hb hscheme hname
  have hwhole := Reference.whole_of_parse hb
  obtain ⟨front, hfront⟩ := divide_root '#' rest (by decide)
  obtain ⟨path, hpath⟩ := divide_root '?' front (by decide)
  refine ⟨_, _, path, hjoin, looksLike_written _ _ hscheme,
    parse_written hscheme hwhole.authority hwhole.separate hsolid, rfl, rfl, ?_⟩
  rw [String.toList_ofList, hfront, hpath]

end ScriptLoader.Uri
