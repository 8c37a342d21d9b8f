import ScriptLoader.Proofs.Files.RealPath
import ScriptLoader.Proofs.Loader.Imports

/-!
# One file under several names

A file in a directory of the search path is named by its name, by its path, and, from a module beside it, by a relative name. Where there
are no links, its name and its path stand for the same source, whose URI is that of the path (`findOn_name`, `findOn_path`). The
relative name stands for that source just if all characters of the name stand for themselves in a URI (`exec_relative_iff`): it is
read against the URI of the module as it is written, while the URI of a path is escaped.
-/

namespace ScriptLoader

open Action Text

namespace Uri

/-- What is left of a name when it is read as a reference. -/
def heard (n : String) : List Char := n.toList.filter fun c => c ≠ '\t' && c ≠ '\r' && c ≠ '\n'

theorem heard_of_solid {n : String} (h : Solid n.toList) : heard n = n.toList := by
  rw [heard, List.filter_eq_self]
  intro c hc
  simp [h c hc]

theorem solid_of_isUnreserved {n : String} (h : ∀ c ∈ n.toList, isUnreserved c = true) : Solid n.toList := by
  intro c hc
  have hunreserved := h c hc
  refine ⟨?_, ?_, ?_⟩ <;>
    · rintro rfl
      revert hunreserved
      decide

/-- How a name behind `./` is read in the document of a file. -/
theorem parse_sibling {n : String} (hquery : '?' ∉ n.toList) (hfragment : '#' ∉ n.toList) :
    Reference.parse "file" ("./" ++ n) = .ok ⟨"file", "", String.ofList ('.' :: '/' :: heard n), "", ""⟩ := by
  have hclean : cleaned ("./" ++ n) = '.' :: '/' :: heard n := by
    rw [cleaned, String.toList_append]
    rfl
  have hmark {mark : Char} (hmark : mark ∉ n.toList) (hdot : '.' ≠ mark) (hslash : '/' ≠ mark) :
      divide mark ('.' :: '/' :: heard n) = ('.' :: '/' :: heard n, []) := by
    refine divide_of_not_mem ?_
    simp only [List.mem_cons, not_or]
    exact ⟨hdot.symm, hslash.symm, fun hmem => hmark (List.mem_filter.mp hmem).1⟩
  have hauthority : authorityOf ('.' :: '/' :: heard n) = ([], '.' :: '/' :: heard n) := rfl
  simp only [Reference.parse, hclean, schemeOf?_point, hauthority, authorityFault?_nil, hmark hquery (by decide) (by decide),
    hmark hfragment (by decide) (by decide)]

/-- The segments of a name behind `./` in the document of a file. -/
theorem mergedSegments_sibling {dir : List String} {b n : String} (hdir : Path.AreNames dir) (hb : Path.IsName b)
    (hn : '/' ∉ n.toList) :
    mergedSegments (⟨.slash, dir ++ [b]⟩ : Path).escaped ('.' :: '/' :: heard n) =
      [] :: (dir.map Path.escapedName ++ [['.'], heard n]) := by
  have hplain : ∀ p ∈ (dir ++ [b]).map Path.escapedName, '/' ∉ p := by
    intro p hp
    obtain ⟨m, hm, rfl⟩ := List.mem_map.mp hp
    exact (hdir.snoc hb m hm).noSlash_escapedName
  have hbase : pieces '/' (⟨.slash, dir ++ [b]⟩ : Path).escaped = [] :: (dir.map Path.escapedName ++ [Path.escapedName b]) := by
    rw [Path.escaped_location, pieces, if_pos rfl, pieces_glue (by simp) hplain, List.map_append]
    rfl
  have hname : pieces '/' ('.' :: '/' :: heard n) = [['.'], heard n] := by
    have hheard : '/' ∉ heard n := fun hmem => hn (List.mem_filter.mp hmem).1
    rw [pieces, if_neg (by decide), pieces, if_pos rfl, pieces_of_not_mem hheard]
  have hlast : (pieces '/' (⟨.slash, dir ++ [b]⟩ : Path).escaped).getLast? ≠ some [] := by
    rw [hbase, ← List.cons_append, List.getLast?_concat]
    exact fun heq => hb.escapedName_ne.1 (Option.some.inj heq)
  have hfront : (pieces '/' (⟨.slash, dir ++ [b]⟩ : Path).escaped).dropLast = [] :: dir.map Path.escapedName := by
    rw [hbase, ← List.cons_append, List.dropLast_concat]
  have hinner : (dir.map Path.escapedName ++ [['.']]).filter (fun s => !s.isEmpty) = dir.map Path.escapedName ++ [['.']] := by
    rw [List.filter_eq_self]
    intro s hs
    rcases List.mem_append.mp hs with hs | hs
    · obtain ⟨m, hm, rfl⟩ := List.mem_map.mp hs
      simpa using (hdir m hm).escapedName_ne.1
    · rw [List.mem_singleton.mp hs]
      rfl
  have hbehind : dir.map Path.escapedName ++ [['.'], heard n] = (dir.map Path.escapedName ++ [['.']]) ++ [heard n] := by simp
  have hrelative : ('.' :: '/' :: heard n).head? ≠ some '/' := fun heq => absurd (Option.some.inj heq) (by decide)
  unfold mergedSegments
  rw [if_neg hrelative]
  simp only [if_neg hlast, hfront, hname, List.cons_append, List.take_succ_cons, List.take_zero, List.drop_succ_cons, List.drop_zero]
  rw [hbehind, List.dropLast_concat, List.getLast?_concat, hinner]
  simp

theorem resolveDots_append {kept segments : List (List Char)} (h : ∀ s ∈ segments, s ≠ ['.'] ∧ s ≠ ['.', '.'])
    (rest : List (List Char)) : resolveDots kept (segments ++ rest) = resolveDots (segments.reverse ++ kept) rest := by
  induction segments generalizing kept with
  | nil => rfl
  | cons s segments ih =>
    obtain ⟨hdot, hback⟩ := h s List.mem_cons_self
    rw [List.cons_append, resolveDots, if_neg hback, if_neg hdot, ih fun t ht => h t (List.mem_cons_of_mem _ ht)]
    simp

/-- A name behind `./` in the document of a file leads to the name in the directory of the file, unless it is a step itself. -/
theorem mergedPath_sibling {dir : List String} {b n : String} (hdir : Path.AreNames dir) (hb : Path.IsName b) (hn : '/' ∉ n.toList)
    (hdot : heard n ≠ ['.']) (hback : heard n ≠ ['.', '.']) :
    mergedPath (⟨.slash, dir ++ [b]⟩ : Path).escaped ('.' :: '/' :: heard n) =
      '/' :: glue '/' (dir.map Path.escapedName ++ [heard n]) := by
  have hkept : ∀ s ∈ [] :: dir.map Path.escapedName, s ≠ ['.'] ∧ s ≠ ['.', '.'] := by
    intro s hs
    rcases List.mem_cons.mp hs with rfl | hs
    · exact ⟨nofun, nofun⟩
    · obtain ⟨m, hm, rfl⟩ := List.mem_map.mp hs
      exact (hdir m hm).escapedName_ne.2
  have hdots : resolveDots [] ([] :: (dir.map Path.escapedName ++ [['.'], heard n])) =
      [] :: (dir.map Path.escapedName ++ [heard n]) := by
    rw [← List.cons_append, resolveDots_append hkept, List.append_nil, resolveDots, if_neg (by decide), if_pos rfl, resolveDots,
      if_neg hback, if_neg hdot, resolveDots]
    simp
  have hlast : ([] :: (dir.map Path.escapedName ++ [['.'], heard n])).getLast? = some (heard n) := by
    rw [show [] :: (dir.map Path.escapedName ++ [['.'], heard n]) = ([] :: (dir.map Path.escapedName ++ [['.']])) ++ [heard n] by simp,
      List.getLast?_concat]
  have hglue : glue '/' ([] :: (dir.map Path.escapedName ++ [heard n])) = '/' :: glue '/' (dir.map Path.escapedName ++ [heard n]) := by
    cases dir <;> rfl
  simp only [mergedPath, mergedSegments_sibling hdir hb hn, hlast, Option.some.injEq, hdot, hback, decide_false, Bool.or_self,
    Bool.false_eq_true, if_false, hdots, List.append_nil, hglue, List.isEmpty_cons]

/-- A path whose last segment is a step ends in a slash. -/
theorem getLast?_mergedPath {base path : List Char}
    (h : (mergedSegments base path).getLast? = some ['.'] ∨ (mergedSegments base path).getLast? = some ['.', '.']) :
    (mergedPath base path).getLast? = some '/' := by
  have hends : (decide ((mergedSegments base path).getLast? = some ['.']) ||
      decide ((mergedSegments base path).getLast? = some ['.', '.'])) = true := by
    simpa using h
  simp only [mergedPath, hends, if_true]
  cases resolveDots [] (mergedSegments base path) with
  | nil => rfl
  | cons p left =>
    rw [glue_concat '/' (List.cons_ne_nil p left)]
    split
    · rename_i hempty
      simp at hempty
    · exact List.getLast?_concat ..

/-- A name behind `./` in the document of a file, as an address. -/
theorem join_sibling {base : Path} (hbase : base.isAbsolute = true) {n : String} (hquery : '?' ∉ n.toList)
    (hfragment : '#' ∉ n.toList) :
    ∃ tail, join base.uri ("./" ++ n) = .ok (written "file" "" tail) ∧
      Behind (mergedPath base.escaped ('.' :: '/' :: heard n)) tail := by
  have hrelative : Syntax.isRelative ("./" ++ n) = true := by
    rw [Syntax.isRelative_iff, String.toList_append]
    exact ⟨['.'], .inl rfl, List.prefix_append _ _⟩
  have hfile : "file" ∈ Address.schemes := by decide
  obtain ⟨r, tail, hr, hjoin, hbehind⟩ := join_eq_written (Path.parse_uri hbase) hfile hrelative
  obtain rfl := Except.ok.inj ((parse_sibling hquery hfragment).symm.trans hr)
  have hplain (path : List Char) : splitParameters "file" path = (path, []) := rfl
  simp only [Reference.plainPath, Reference.parameters, String.toList_ofList, hplain, withParameters, List.isEmpty_nil, if_true]
    at hbehind
  refine ⟨tail, ?_, hbehind⟩
  rw [hjoin]
  simp [Reference.marked]

theorem written_inj {scheme authority : String} {rest rest' : List Char}
    (h : written scheme authority rest = written scheme authority rest') : rest = rest' := by
  have hlist := congrArg String.toList h
  simpa [written] using hlist

/-- A name stands for itself in a URI just if all its characters do. -/
theorem heard_eq_escapedName_iff (n : String) : heard n = Path.escapedName n ↔ ∀ c ∈ n.toList, isUnreserved c = true := by
  rcases escape_encode n.toList with ⟨hall, hescape⟩ | ⟨hall, hlong⟩
  · rw [heard_of_solid (solid_of_isUnreserved hall)]
    exact ⟨fun _ => hall, fun _ => hescape.symm⟩
  · refine ⟨fun heq => ?_, fun h => absurd h hall⟩
    have hshort : (heard n).length ≤ n.toList.length := List.length_filter_le _ _
    have hlength : (heard n).length = (escape (Utf8.encode n.toList)).length := congrArg List.length heq
    omega

theorem Behind.getLast? {path tail : List Char} (h : Behind path tail) (hne : tail ≠ []) : path.getLast? = tail.getLast? := by
  cases h with
  | added => rfl
  | rooted =>
    obtain ⟨c, cs, rfl⟩ := List.exists_cons_of_ne_nil hne
    rw [List.getLast?_cons_cons]

theorem getLast?_glue_concat (sep : Char) (ps : List (List Char)) {q : List Char} (hq : q ≠ []) :
    (glue sep (ps ++ [q])).getLast? = q.getLast? := by
  have hend (cs : List Char) : (cs ++ q).getLast? = q.getLast? := by
    rw [List.getLast?_append, List.getLast?_eq_some_getLast hq, Option.some_or]
  rcases glue_snoc sep ps q with hglue | hglue
  · rw [hglue, hend]
  · rw [hglue, List.append_cons, hend]

section Siblings

variable {dir : List String} {b n : String} {tail : List Char}

theorem noSlash_of_mem_location (hdir : Path.AreNames dir) {q : List Char} (hq : '/' ∉ q) :
    ∀ p ∈ dir.map Path.escapedName ++ [q], '/' ∉ p := by
  intro p hp
  rcases List.mem_append.mp hp with hp | hp
  · obtain ⟨m, hm, rfl⟩ := List.mem_map.mp hp
    exact (hdir m hm).noSlash_escapedName
  · rwa [List.mem_singleton.mp hp]

/-- What is read as a step leads to a directory, whose URI is that of no name. -/
theorem ne_of_step (hdir : Path.AreNames dir) (hb : Path.IsName b) (hn : Path.IsName n)
    (hstep : heard n = ['.'] ∨ heard n = ['.', '.'])
    (hbehind : Behind (mergedPath (⟨.slash, dir ++ [b]⟩ : Path).escaped ('.' :: '/' :: heard n)) tail) :
    tail ≠ glue '/' (dir.map Path.escapedName ++ [Path.escapedName n]) := by
  rintro rfl
  have hsegments : (mergedSegments (⟨.slash, dir ++ [b]⟩ : Path).escaped ('.' :: '/' :: heard n)).getLast? = some (heard n) := by
    rw [mergedSegments_sibling hdir hb hn.slash,
      show [] :: (dir.map Path.escapedName ++ [['.'], heard n]) = ([] :: (dir.map Path.escapedName ++ [['.']])) ++ [heard n] by simp,
      List.getLast?_concat]
  have hends := getLast?_mergedPath (hstep.imp (hsegments.trans <| congrArg some ·) (hsegments.trans <| congrArg some ·))
  have hglue := getLast?_glue_concat '/' (dir.map Path.escapedName) hn.escapedName_ne.1
  have hne : glue '/' (dir.map Path.escapedName ++ [Path.escapedName n]) ≠ [] := by
    intro hnil
    rw [hnil] at hglue
    exact hn.escapedName_ne.1 (List.getLast?_eq_none_iff.mp hglue.symm)
  rw [hbehind.getLast? hne, hglue] at hends
  exact hn.noSlash_escapedName (List.mem_of_getLast? hends)

/-- A name behind `./` in the document of a file stands for the URI of the path in the same directory just if all characters of the name
stand for themselves. -/
theorem join_sibling_eq_iff (hdir : Path.AreNames dir) (hb : Path.IsName b) (hn : Path.IsName n) (hquery : '?' ∉ n.toList)
    (hfragment : '#' ∉ n.toList) :
    join (⟨.slash, dir ++ [b]⟩ : Path).uri ("./" ++ n) = .ok (⟨.slash, dir ++ [n]⟩ : Path).uri ↔
      ∀ c ∈ n.toList, isUnreserved c = true := by
  have habsolute : (⟨.slash, dir ++ [b]⟩ : Path).isAbsolute = true := rfl
  obtain ⟨tail, hjoin, hbehind⟩ := join_sibling habsolute hquery hfragment
  rw [hjoin, Path.uri_location, List.map_append, List.map_singleton, ← heard_eq_escapedName_iff]
  by_cases hstep : heard n = ['.'] ∨ heard n = ['.', '.']
  · refine iff_of_false (fun heq => ne_of_step hdir hb hn hstep hbehind (written_inj (Except.ok.inj heq))) fun heq => ?_
    rw [heq] at hstep
    exact hstep.elim hn.escapedName_ne.2.1 hn.escapedName_ne.2.2
  · obtain ⟨hdot, hback⟩ := not_or.mp hstep
    have hheard : '/' ∉ heard n := fun hmem => hn.slash (List.mem_filter.mp hmem).1
    rw [mergedPath_sibling hdir hb hn.slash hdot hback] at hbehind
    have htail : tail = glue '/' (dir.map Path.escapedName ++ [heard n]) := by
      cases hbehind with
      | rooted => rfl
      | added h => exact absurd rfl h
    rw [htail]
    constructor
    · intro heq
      have hpieces := congrArg (pieces '/') (written_inj (Except.ok.inj heq))
      rw [pieces_glue (by simp) (noSlash_of_mem_location hdir hheard),
        pieces_glue (by simp) (noSlash_of_mem_location hdir hn.noSlash_escapedName)] at hpieces
      exact (List.cons.inj (List.append_cancel_left hpieces)).1
    · intro heq
      rw [heq]

end Siblings

end Uri

/-! ## Names of one file -/

theorem Address.looksLike_of_not_mem {name : String} (h : '/' ∉ name.toList) : Address.looksLike name = false := by
  have htail : [':', '/'].isPrefixOf (cut (fun c => !c.isLower) name.toList).2 = false := by
    rw [Bool.eq_false_iff, ne_eq, List.isPrefixOf_iff_prefix]
    rintro ⟨rest, hrest⟩
    refine h ((List.dropWhile_sublist _).subset (?_ : '/' ∈ (cut (fun c => !c.isLower) name.toList).2))
    rw [← hrest]
    exact List.mem_cons_of_mem _ List.mem_cons_self
  show (!(cut (fun c => !c.isLower) name.toList).1.isEmpty && [':', '/'].isPrefixOf (cut (fun c => !c.isLower) name.toList).2) = false
  rw [htail, Bool.and_false]

theorem Address.looksLike_of_slash {name : String} {cs : List Char} (h : name.toList = '/' :: cs) : Address.looksLike name = false := by
  rw [Address.looksLike, h]
  rfl

/-- The files of a host in which there are no links, and a file of a directory in the search path: the real path of the root is `dir`,
no root before it has a file of this name, and the file can be read as text. -/
structure Host.Offers (h : Host) (r : Resolver) (before : List String) (root : String) (after dir : List String) (n text : String) :
    Prop where
  links : h.files.LinkFree
  lookup : r.lookup = .search (before ++ root :: after)
  real : h.realPath (Path.ofText root) = .ok ⟨.slash, dir⟩
  names : Path.AreNames dir
  name : Path.IsName n
  hidden : ∀ earlier ∈ before, Lookup.fileBelow? h n earlier = .ok none
  read : h.readText r.encoding ⟨.slash, dir ++ [n]⟩ = .ok text

namespace Host.Offers

variable {h : Host} {r : Resolver} {before after dir : List String} {root n text : String}

theorem locate (ho : h.Offers r before root after dir n text) :
    ∃ l bs, h.files.locate true [] ⟨.slash, dir ++ [n]⟩ = .ok l ∧ h.files.node? l = some (.file bs) := by
  obtain ⟨bs, hbytes, -⟩ := bind_eq_ok_iff.mp ho.read
  obtain ⟨l, hl, hnode⟩ := Files.FileSystem.read_eq_ok_iff.mp (mapError_eq_ok_iff.mp hbytes)
  exact ⟨l, _, hl, hnode⟩

theorem realPath (ho : h.Offers r before root after dir n text) :
    h.realPath ⟨.slash, dir ++ [n]⟩ = .ok ⟨.slash, dir ++ [n]⟩ := by
  obtain ⟨l, bs, hl, -⟩ := ho.locate
  rw [Host.realPath, Files.FileSystem.realPath_of_linkFree ho.links (ho.names.snoc ho.name) hl]
  rfl

theorem get? (ho : h.Offers r before root after dir n text) :
    r.lookup.get? h n = .ok (some (⟨.slash, dir ++ [n]⟩ : Path).uri) := by
  have hbelow : Lookup.fileBelow? h n root = .ok (some ⟨.slash, dir ++ [n]⟩) := by
    obtain ⟨l, bs, hl, hnode⟩ := ho.locate
    have hstat : h.files.stat h.cwd ⟨.slash, dir ++ [n]⟩ = .ok (.file bs) := Files.FileSystem.stat_eq_ok_iff.mpr ⟨l, hl, hnode⟩
    have hbelow : dir.isPrefixOf (dir ++ [n]) = true := List.isPrefixOf_iff_prefix.mpr (List.prefix_append _ _)
    simp only [Lookup.fileBelow?, ho.real, Bind.bind, Except.bind, ho.name.join, ho.realPath, hbelow, if_true,
      Files.FileSystem.leadsToFile, hstat]
  have hrelative : Lookup.isRelativeName n = true := by
    have hne : n.isEmpty = false := by
      rw [Bool.eq_false_iff]
      exact fun hempty => ho.name.empty (String.isEmpty_iff.mp hempty)
    have hslash : startsWith n "/" = false := by
      rw [Bool.eq_false_iff, startsWith, ne_eq, List.isPrefixOf_iff_prefix]
      rintro ⟨rest, hrest⟩
      exact ho.name.slash (hrest ▸ List.mem_cons_self)
    rw [Lookup.isRelativeName, hne, hslash]
    rfl
  rw [ho.lookup, Lookup.get?, hrelative, if_pos rfl]
  have hhidden := ho.hidden
  clear ho
  induction before with
  | nil => rw [List.nil_append, Lookup.searchFor, hbelow]
  | cons earlier before ih =>
    rw [List.cons_append, Lookup.searchFor, hhidden earlier List.mem_cons_self]
    exact ih fun e he => hhidden e (List.mem_cons_of_mem _ he)

/-- The URI of the path leads to the file. -/
theorem sourceOfUrl (ho : h.Offers r before root after dir n text) :
    h.sourceOfUrl r.encoding (⟨.slash, dir ++ [n]⟩ : Path).uri = .ok ⟨(⟨.slash, dir ++ [n]⟩ : Path).uri, text⟩ := by
  have habsolute : (⟨.slash, dir ++ [n]⟩ : Path).isAbsolute = true := rfl
  have hpath := Path.ofText_text (ho.names.snoc ho.name)
  simp only [Host.sourceOfUrl, Path.parse_uri habsolute, mapError_ok, Bind.bind, Except.bind, if_true, Path.unescaped_escaped, hpath,
    ho.read, Pure.pure, Except.pure]

/-- The name of the file stands for the source with the URI of its path. -/
theorem findOn_name (ho : h.Offers r before root after dir n text) :
    r.findOn h n = .ok ⟨(⟨.slash, dir ++ [n]⟩ : Path).uri, text⟩ := by
  rw [Resolver.findOn, Resolver.locateOn, Address.looksLike_of_not_mem ho.name.slash]
  simp only [ho.get?, Bind.bind, Except.bind, ho.sourceOfUrl, mapError_ok]

/-- The path of the file stands for the source with its URI. -/
theorem findOn_path (ho : h.Offers r before root after dir n text) :
    r.findOn h (⟨.slash, dir ++ [n]⟩ : Path).text = .ok ⟨(⟨.slash, dir ++ [n]⟩ : Path).uri, text⟩ := by
  have htext := Path.toList_text (dir ++ [n])
  have hget : r.lookup.get? h (⟨.slash, dir ++ [n]⟩ : Path).text = .ok none := by
    have habsolute : Lookup.isRelativeName (⟨.slash, dir ++ [n]⟩ : Path).text = false := by
      rw [Lookup.isRelativeName, startsWith, htext]
      simp
    rw [ho.lookup, Lookup.get?, habsolute]
    rfl
  have hpath := Path.ofText_text (ho.names.snoc ho.name)
  rw [Resolver.findOn, Resolver.locateOn, Address.looksLike_of_slash htext]
  simp only [hget, Bind.bind, Except.bind, Host.sourceOfFile, hpath, ho.realPath, ho.read, Pure.pure, Except.pure, mapError_ok]

/-- The relative name of the file in the document of a file beside it stands for the same source just if all characters of the name stand
for themselves. -/
theorem exec_relative_iff {w : World} {base b t : String} (ho : w.host.Offers r before root after dir n text)
    (hfaithful : w.identities.Faithful r w.host) (hb : Path.IsName b)
    (hbase : r.findOn w.host base = .ok ⟨(⟨.slash, dir ++ [b]⟩ : Path).uri, t⟩) (hquery : '?' ∉ n.toList)
    (hfragment : '#' ∉ n.toList) :
    (exec (r.resolve ("./" ++ n) (some base)) w).1 = .ok ⟨(⟨.slash, dir ++ [n]⟩ : Path).uri, text⟩ ↔
      ∀ c ∈ n.toList, Uri.isUnreserved c = true := by
  have hrelative : Syntax.isRelative ("./" ++ n) = true := by
    rw [Syntax.isRelative_iff, String.toList_append]
    exact ⟨['.'], .inl rfl, List.prefix_append _ _⟩
  have huri : Address.check (⟨.slash, dir ++ [b]⟩ : Path).uri = .ok () := by
    have habsolute : (⟨.slash, dir ++ [b]⟩ : Path).isAbsolute = true := rfl
    have hlong : ¬"file".length < 2 := by decide
    have hlisted : Address.schemes.contains "file" = true := by decide
    simp only [Address.check, Path.parse_uri habsolute, hlong, hlisted, ne_eq, not_true_eq_false, decide_false, Bool.false_and,
      Bool.not_true, Bool.false_eq_true, if_false]
  obtain ⟨url, ref, path, hjoin, hlooks, hcheck, -, -⟩ := Address.check_join huri hrelative
  rw [← Uri.join_sibling_eq_iff ho.names hb ho.name hquery hfragment, hfaithful.exec_resolve_relative hrelative hbase, hjoin]
  show r.findOn w.host url = _ ↔ _
  rw [Resolver.findOn, Resolver.locateOn_of_address w.host hlooks hcheck]
  show (w.host.sourceOfUrl r.encoding url).mapError _ = _ ↔ _
  rw [mapError_eq_ok_iff]
  constructor
  · intro hs
    exact congrArg Except.ok (uri_of_sourceOfUrl hs).symm
  · intro heq
    rw [Except.ok.inj heq]
    exact ho.sourceOfUrl

end Host.Offers

/-- A world with two files in the root directory. -/
def besideWorld (name : String) : World := plainWorld [(["a.ts"], .file [0x78]), ([name], .file [0x78])]

theorem linkFree_beside (name : String) : (besideWorld name).host.files.LinkFree := by
  intro l target h
  simp only [besideWorld, plainWorld, Files.FileSystem.node?, List.lookup_cons, List.lookup_nil] at h
  split at h
  · cases h
  · split at h
    · cases h
    · split at h <;> cases h

theorem offers_beside {name n : String} (hn : Path.IsName n) (hfits : (⟨.slash, [n]⟩ : Path).Fits)
    (hlen : n.utf8ByteSize ≤ Files.maxName) (hnode : (besideWorld name).host.files.node? [n] = some (.file [0x78])) :
    (besideWorld name).host.Offers ⟨.search ["/"], "utf-8"⟩ [] "/" [] [] n "x" := by
  have hroot : (besideWorld name).host.files.locate true [] ⟨.slash, []⟩ = .ok [] :=
    Files.FileSystem.locate_eq_ok_iff.mpr ⟨⟨by decide, by decide⟩, .here⟩
  have hfile : (besideWorld name).host.files.locate true [] ⟨.slash, [n]⟩ = .ok [n] :=
    Files.FileSystem.locate_eq_ok_iff.mpr
      ⟨hfits, .one rfl ⟨hn.dot, hn.parent⟩ hlen (.inr fun target => linkFree_beside name _ target)⟩
  have hdecode : decodeText "utf-8" [0x78] = .ok "x" := by
    rw [← toOption_eq_some_iff]
    decide +kernel
  refine ⟨linkFree_beside name, rfl, ?_, nofun, hn, nofun, ?_⟩
  · have hnone : Path.AreNames [] := fun _ hmem => nomatch hmem
    show (besideWorld name).host.realPath ⟨.slash, []⟩ = _
    rw [Host.realPath, Files.FileSystem.realPath_of_linkFree (linkFree_beside name) hnone hroot]
    rfl
  · have hread : (besideWorld name).host.files.read [] ⟨.slash, [n]⟩ = .ok [0x78] :=
      Files.FileSystem.read_eq_ok_iff.mpr ⟨[n], hfile, hnode⟩
    have hbytes : (besideWorld name).host.fileBytes ⟨.slash, [n]⟩ = .ok [0x78] := by
      rw [Host.fileBytes]
      exact mapError_eq_ok_iff.mpr hread
    simp only [Host.readText, List.nil_append, hbytes, hdecode, Bind.bind, Except.bind, Pure.pure, Except.pure]
    rfl

/-- A file in a directory of the search path, which has no links, stands for one source under its name and under its path: the URI is
that of the path. In the document of a file beside it, its relative name stands for the same source just if all characters of the name
stand for themselves in a URI. -/
theorem Resolver.sources_of_file {r : Resolver} {w : World} {before after dir : List String} {root n b base text t : String}
    (ho : w.host.Offers r before root after dir n text) (hfaithful : w.identities.Faithful r w.host) (hb : Path.IsName b)
    (hbase : (exec (r.resolve base none) w).1 = .ok ⟨(⟨.slash, dir ++ [b]⟩ : Path).uri, t⟩) (hquery : '?' ∉ n.toList)
    (hfragment : '#' ∉ n.toList) :
    (exec (r.resolve n none) w).1 = .ok ⟨(⟨.slash, dir ++ [n]⟩ : Path).uri, text⟩ ∧
      (exec (r.resolve (⟨.slash, dir ++ [n]⟩ : Path).text none) w).1 = .ok ⟨(⟨.slash, dir ++ [n]⟩ : Path).uri, text⟩ ∧
      ((exec (r.resolve ("./" ++ n) (some base)) w).1 = .ok ⟨(⟨.slash, dir ++ [n]⟩ : Path).uri, text⟩ ↔
        ∀ c ∈ n.toList, Uri.isUnreserved c = true) := by
  have hname (name : String) : (exec (r.resolve name none) w).1 = r.findOn w.host name := hfaithful.exec_resolveName name
  refine ⟨?_, ?_, ho.exec_relative_iff hfaithful hb ((hname base).symm.trans hbase) hquery hfragment⟩
  · rw [hname]
    exact ho.findOn_name
  · rw [hname]
    exact ho.findOn_path

theorem sources_of_file_beside :
    let r : Resolver := ⟨.search ["/"], "utf-8"⟩
    let w := besideWorld "b.ts"
    w.host.Offers r [] "/" [] [] "b.ts" "x" ∧
      (exec (r.resolve "a.ts" none) w).1 = .ok ⟨(⟨.slash, ["a.ts"]⟩ : Path).uri, "x"⟩ ∧
      (exec (r.resolve "b.ts" none) w).1 = .ok ⟨(⟨.slash, ["b.ts"]⟩ : Path).uri, "x"⟩ ∧
      (exec (r.resolve "/b.ts" none) w).1 = .ok ⟨(⟨.slash, ["b.ts"]⟩ : Path).uri, "x"⟩ ∧
      ((exec (r.resolve "./b.ts" (some "a.ts")) w).1 = .ok ⟨(⟨.slash, ["b.ts"]⟩ : Path).uri, "x"⟩ ↔
        ∀ c ∈ "b.ts".toList, Uri.isUnreserved c = true) := by
  intro r w
  have hfaithful : w.identities.Faithful r w.host := Identities.faithful_empty r w.host
  have hb : Path.IsName "a.ts" := ⟨by decide, by decide, by decide, by decide⟩
  have hn : Path.IsName "b.ts" := ⟨by decide, by decide, by decide, by decide⟩
  have ha : w.host.Offers r [] "/" [] [] "a.ts" "x" := offers_beside hb ⟨by decide, by decide⟩ (by decide) rfl
  have ho : w.host.Offers r [] "/" [] [] "b.ts" "x" := offers_beside hn ⟨by decide, by decide⟩ (by decide) rfl
  have hbase : (exec (r.resolve "a.ts" none) w).1 = .ok ⟨(⟨.slash, ["a.ts"]⟩ : Path).uri, "x"⟩ :=
    (hfaithful.exec_resolveName "a.ts").trans ha.findOn_name
  have htext : "/b.ts" = (⟨.slash, ["b.ts"]⟩ : Path).text := rfl
  have hrelative : "./b.ts" = "./" ++ "b.ts" := rfl
  rw [htext, hrelative]
  have hsources := Resolver.sources_of_file ho hfaithful hb hbase (by decide) (by decide)
  rw [List.nil_append] at hsources
  exact ⟨ho, hbase, hsources⟩

/-- A file with a blank in its name stands for two sources. -/
theorem sources_of_file_blank :
    let r : Resolver := ⟨.search ["/"], "utf-8"⟩
    let w := besideWorld "a b.ts"
    w.host.files.LinkFree ∧ (exec (r.resolve "a.ts" none) w).1 = .ok ⟨"file:///a.ts", "x"⟩ ∧
      (exec (r.resolve "a b.ts" none) w).1 = .ok ⟨"file:///a%20b.ts", "x"⟩ ∧
      (exec (r.resolve "./a b.ts" (some "a.ts")) w).1 = .ok ⟨"file:///a b.ts", "x"⟩ := by
  intro r w
  have hfaithful : w.identities.Faithful r w.host := Identities.faithful_empty r w.host
  have ha : w.host.Offers r [] "/" [] [] "a.ts" "x" :=
    offers_beside ⟨by decide, by decide, by decide, by decide⟩ ⟨by decide, by decide⟩ (by decide) rfl
  have ho : w.host.Offers r [] "/" [] [] "a b.ts" "x" :=
    offers_beside ⟨by decide, by decide, by decide, by decide⟩ ⟨by decide, by decide⟩ (by decide) rfl
  have hbaseUri : (⟨.slash, ["a.ts"]⟩ : Path).uri = "file:///a.ts" := rfl
  have huri : (⟨.slash, ["a b.ts"]⟩ : Path).uri = "file:///a%20b.ts" := rfl
  have hbase : r.findOn w.host "a.ts" = .ok ⟨"file:///a.ts", "x"⟩ := hbaseUri ▸ ha.findOn_name
  refine ⟨linkFree_beside _, (hfaithful.exec_resolveName "a.ts").trans hbase,
    (hfaithful.exec_resolveName "a b.ts").trans (huri ▸ ho.findOn_name), ?_⟩
  have hjoin : Uri.join "file:///a.ts" "./a b.ts" = .ok "file:///a b.ts" := by
    rw [← toOption_eq_some_iff]
    rfl
  have hcheck : Address.check "file:///a b.ts" = .ok () := by
    rw [← toOption_eq_some_iff]
    rfl
  have hparse : Uri.Reference.parse "" "file:///a b.ts" = .ok ⟨"file", "", "/a b.ts", "", ""⟩ := by
    rw [← toOption_eq_some_iff]
    rfl
  have hpath : Path.ofText (Uri.unescaped "/a b.ts") = ⟨.slash, ["a b.ts"]⟩ := by decide +kernel
  have hread : w.host.readText "utf-8" ⟨.slash, ["a b.ts"]⟩ = .ok "x" := ho.read
  rw [hfaithful.exec_resolve_relative (by decide) hbase, hjoin]
  show r.findOn w.host "file:///a b.ts" = _
  rw [Resolver.findOn, Resolver.locateOn_of_address w.host (by decide) hcheck]
  simp only [Bind.bind, Except.bind, Host.sourceOfUrl, hparse, mapError_ok, if_true, hpath]
  rw [show r.encoding = "utf-8" from rfl, hread]
  rfl

end ScriptLoader
