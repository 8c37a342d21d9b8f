import ScriptLoader.Files.RealPath
import ScriptLoader.Proofs.Files.Access
import ScriptLoader.Proofs.Uri.Join

/-!
# Real paths without links

Where there are no links, the path of a location is its own real path (`realPath_of_linkFree`), it is read as it is written
(`Path.ofText_text`), and its URI has an escaped name for every name (`Path.escaped_location`).
-/

namespace ScriptLoader

open Text

/-! ## Texts of locations -/

/-- Pieces are taken apart where they were put together. -/
theorem Text.pieces_glue {sep : Char} {ps : List (List Char)} (hne : ps ≠ []) (h : ∀ p ∈ ps, sep ∉ p) :
    pieces sep (glue sep ps) = ps := by
  have happend {p : List Char} (hp : sep ∉ p) (rest : List Char) : pieces sep (p ++ sep :: rest) = p :: pieces sep rest := by
    induction p with
    | nil => rw [List.nil_append, pieces, if_pos rfl]
    | cons c p ih =>
      rw [List.mem_cons, not_or] at hp
      rw [List.cons_append, pieces, if_neg (Ne.symm hp.1), ih hp.2]
  induction ps with
  | nil => exact absurd rfl hne
  | cons p ps ih =>
    cases ps with
    | nil => exact pieces_of_not_mem (h p List.mem_cons_self)
    | cons q ps =>
      rw [glue, happend (h p List.mem_cons_self), ih (List.cons_ne_nil q ps) fun r hr => h r (List.mem_cons_of_mem _ hr)]

/-- One more piece behind others adds a separator and itself. -/
theorem Text.glue_concat (sep : Char) {ps : List (List Char)} (hne : ps ≠ []) (q : List Char) :
    glue sep (ps ++ [q]) = glue sep ps ++ sep :: q := by
  induction ps with
  | nil => exact absurd rfl hne
  | cons p ps ih =>
    cases ps with
    | nil => rfl
    | cons r ps =>
      have hcons (tail : List (List Char)) : glue sep (p :: r :: tail) = p ++ sep :: glue sep (r :: tail) := rfl
      rw [List.cons_append, List.cons_append, hcons, hcons, ← List.cons_append, ih (List.cons_ne_nil r ps), List.append_assoc,
        List.cons_append]

namespace Path

/-- Every name can be the name of a file. -/
def AreNames (ns : List String) : Prop := ∀ n ∈ ns, IsName n

theorem AreNames.snoc {ns : List String} (h : AreNames ns) {n : String} (hn : IsName n) : AreNames (ns ++ [n]) := by
  intro m hm
  rcases List.mem_append.mp hm with hm | hm
  · exact h m hm
  · rw [List.mem_singleton.mp hm]
    exact hn

/-- The text of a path from the root. -/
theorem toList_text (ns : List String) : (⟨.slash, ns⟩ : Path).text.toList = '/' :: glue '/' (ns.map String.toList) := by
  have hne : (Root.slash.text ++ joinFields '/' ns).isEmpty = false := by
    rw [Bool.eq_false_iff]
    intro hempty
    have hnil := congrArg String.toList (String.isEmpty_iff.mp hempty)
    rw [String.toList_append] at hnil
    nomatch hnil
  rw [text]
  simp only [hne, Bool.false_eq_true, if_false]
  rw [String.toList_append, joinFields, String.toList_ofList]
  rfl

theorem noSlash_of_areNames {ns : List String} (h : AreNames ns) : ∀ p ∈ ns.map String.toList, '/' ∉ p := by
  intro p hp
  obtain ⟨n, hn, rfl⟩ := List.mem_map.mp hp
  exact (h n hn).slash

/-- The path of a location is read as it is written. -/
theorem ofText_text {ns : List String} (h : AreNames ns) : ofText (⟨.slash, ns⟩ : Path).text = ⟨.slash, ns⟩ := by
  cases ns with
  | nil => rfl
  | cons n ns =>
    have hfields : fields '/' (⟨.slash, n :: ns⟩ : Path).text = "" :: n :: ns := by
      rw [fields, toList_text, pieces, if_pos rfl, pieces_glue (by simp) (noSlash_of_areNames h)]
      simp [Function.comp_def]
    have hroot : Root.ofChars (⟨.slash, n :: ns⟩ : Path).text.toList = .slash := by
      obtain ⟨c, cs, hcs⟩ : ∃ c cs, n.toList = c :: cs := by
        cases hn : n.toList with
        | nil => exact absurd (String.toList_eq_nil_iff.mp hn) (h n List.mem_cons_self).empty
        | cons c cs => exact ⟨c, cs, rfl⟩
      have hc : c ≠ '/' := by
        rintro rfl
        exact (h n List.mem_cons_self).slash (hcs ▸ List.mem_cons_self)
      obtain ⟨tail, htail⟩ : ∃ tail, glue '/' ((n :: ns).map String.toList) = c :: tail := by
        rw [List.map_cons, hcs]
        cases ns with
        | nil => exact ⟨cs, rfl⟩
        | cons m ns => exact ⟨cs ++ '/' :: glue '/' ((m :: ns).map String.toList), rfl⟩
      rw [toList_text, htail]
      unfold Root.ofChars
      split
      · rename_i heq
        exact absurd (List.cons.inj (List.cons.inj heq).2).1 hc
      · rename_i heq
        exact absurd (List.cons.inj (List.cons.inj heq).2).1 hc
      · rfl
      · rename_i hother
        exact absurd rfl (hother _)
    rw [ofText, hroot, namesOf, hfields]
    congr 1
    rw [List.filter_cons_of_neg (by decide), List.filter_eq_self]
    intro m hm
    simp [(h m hm).empty, (h m hm).dot]

/-! ## URIs of locations -/

/-- A name as it stands in a URI. -/
def escapedName (n : String) : List Char := Uri.escape (Utf8.encode n.toList)

theorem escape_append (bs cs : Bytes) : Uri.escape (bs ++ cs) = Uri.escape bs ++ Uri.escape cs := List.flatMap_append

theorem encode_append (cs ds : List Char) : Utf8.encode (cs ++ ds) = Utf8.encode cs ++ Utf8.encode ds := List.flatMap_append

theorem escape_encode_slash (cs : List Char) : Uri.escape (Utf8.encode ('/' :: cs)) = '/' :: Uri.escape (Utf8.encode cs) := by
  have hslash : Uri.escape (Utf8.encode ['/']) = ['/'] := rfl
  rw [show '/' :: cs = ['/'] ++ cs from rfl, encode_append, escape_append, hslash]
  rfl

theorem escape_glue (ns : List String) :
    Uri.escape (Utf8.encode (glue '/' (ns.map String.toList))) = glue '/' (ns.map escapedName) := by
  induction ns with
  | nil => rfl
  | cons n ns ih =>
    cases ns with
    | nil => rfl
    | cons m ns =>
      rw [List.map_cons, List.map_cons, glue, encode_append, escape_append, escape_encode_slash, ← List.map_cons, ih]
      rfl

/-- The URI of a location has an escaped name for every name. -/
theorem escaped_location (ns : List String) : (⟨.slash, ns⟩ : Path).escaped = '/' :: glue '/' (ns.map escapedName) := by
  rw [escaped, toList_text, escape_encode_slash, escape_glue]

theorem uri_location (ns : List String) :
    (⟨.slash, ns⟩ : Path).uri = Uri.written "file" "" (glue '/' (ns.map escapedName)) := by
  rw [← String.toList_inj, uri, ← escaped, escaped_location, Uri.written]
  simp

theorem escapedName_injective {n m : String} (h : escapedName n = escapedName m) : n = m := by
  rw [← Uri.unescaped_escape n, ← Uri.unescaped_escape m]
  exact congrArg (fun cs => Uri.unescaped (String.ofList cs)) h

end Path

/-! ## Characters that stand for themselves -/

namespace Uri

/-- A character that stands for itself in the URI of a file. -/
def isUnreserved (c : Char) : Bool := isAscii c && isPlain (UInt8.ofNat c.toNat)

theorem length_escapeByte_pos (b : UInt8) : 1 ≤ (escapeByte b).length := by
  unfold escapeByte
  split <;> simp

theorem length_le_escape (bs : Bytes) : bs.length ≤ (escape bs).length := by
  induction bs with
  | nil => exact Nat.le_refl 0
  | cons b bs ih =>
    have hb := length_escapeByte_pos b
    rw [show escape (b :: bs) = escapeByte b ++ escape bs from rfl, List.length_append, List.length_cons]
    omega

/-- A character stands for itself or is written with more characters than one. -/
theorem escape_encodeChar (c : Char) :
    (isUnreserved c = true ∧ escape (String.utf8EncodeChar c) = [c]) ∨
      (isUnreserved c = false ∧ 1 < (escape (String.utf8EncodeChar c)).length) := by
  by_cases hascii : c.toNat < 0x80
  · have hencode : String.utf8EncodeChar c = [UInt8.ofNat c.toNat] := by
      have hsmall : c.val.toNat ≤ 0x7f := Nat.le_of_lt_succ hascii
      unfold String.utf8EncodeChar
      simp only
      rw [if_pos hsmall]
      rfl
    have hescape : escape (String.utf8EncodeChar c) = escapeByte (UInt8.ofNat c.toNat) := by
      rw [hencode, escape, List.flatMap_singleton]
    have hchar : Char.ofNat (UInt8.ofNat c.toNat).toNat = c := by
      rw [Utf8.toNat_byte (by omega), Char.ofNat_toNat]
    rw [hescape, isUnreserved, isAscii, decide_eq_true hascii, Bool.true_and, escapeByte]
    cases isPlain (UInt8.ofNat c.toNat) with
    | true => exact .inl ⟨rfl, by rw [if_pos rfl, hchar]⟩
    | false => exact .inr ⟨rfl, by simp⟩
  · refine .inr ⟨by simp [isUnreserved, isAscii, hascii], Nat.lt_of_lt_of_le ?_ (length_le_escape _)⟩
    have hlarge : ¬c.val.toNat ≤ 0x7f := fun hle => hascii (Nat.lt_succ_of_le hle)
    unfold String.utf8EncodeChar
    simp only
    rw [if_neg hlarge]
    split
    · simp
    · split <;> simp

/-- An escaped text is at least as long as the text, and longer unless every character stands for itself. -/
theorem escape_encode (cs : List Char) :
    ((∀ c ∈ cs, isUnreserved c = true) ∧ escape (Utf8.encode cs) = cs) ∨
      (¬(∀ c ∈ cs, isUnreserved c = true) ∧ cs.length < (escape (Utf8.encode cs)).length) := by
  induction cs with
  | nil => exact .inl ⟨nofun, rfl⟩
  | cons c cs ih =>
    have hcons : escape (Utf8.encode (c :: cs)) = escape (String.utf8EncodeChar c) ++ escape (Utf8.encode cs) :=
      Path.escape_append _ _
    rw [hcons, List.forall_mem_cons]
    rcases escape_encodeChar c with ⟨hc, hescape⟩ | ⟨hc, hlong⟩
    · rw [hescape, List.singleton_append, hc]
      rcases ih with ⟨hall, hrest⟩ | ⟨hall, hlong⟩
      · exact .inl ⟨⟨rfl, hall⟩, by rw [hrest]⟩
      · exact .inr ⟨fun h => hall h.2, by simpa using hlong⟩
    · refine .inr ⟨fun h => ?_, ?_⟩
      · rw [hc] at h
        nomatch h.1
      · rw [List.length_append, List.length_cons]
        rcases ih with ⟨-, hrest⟩ | ⟨-, hrest⟩
        · rw [hrest]
          omega
        · omega

end Uri

namespace Uri

theorem eq_slash_of_mem_escapeByte (b : UInt8) : '/' ∈ escapeByte b → b = 0x2f := by
  revert b
  apply forall_byte
  decide +kernel

theorem eq_slash_of_mem_encodeChar {c : Char} (h : (0x2f : UInt8) ∈ String.utf8EncodeChar c) : c = '/' := by
  have hc : Char.ofNat c.val.toNat = c := Char.ofNat_toNat c
  unfold String.utf8EncodeChar at h
  simp only at h
  generalize c.val.toNat = v at h hc
  have hlarge {n : Nat} (hn : n < 256) (hn' : 0x80 ≤ n) : (0x2f : UInt8) ≠ UInt8.ofNat n := by
    intro heq
    have hnat := congrArg UInt8.toNat heq
    rw [Utf8.toNat_byte hn] at hnat
    have : (0x2f : UInt8).toNat = 0x2f := rfl
    omega
  split at h
  · have hnat := congrArg UInt8.toNat (List.mem_singleton.mp h)
    rw [Utf8.toNat_byte (by omega)] at hnat
    rw [← hc, ← hnat]
    rfl
  · exfalso
    split at h
    · simp only [List.mem_cons, List.not_mem_nil, or_false] at h
      rcases h with h | h
      · exact hlarge (by omega) (by omega) h
      · exact hlarge (by omega) (by omega) h
    · split at h
      · simp only [List.mem_cons, List.not_mem_nil, or_false] at h
        rcases h with h | h | h
        · exact hlarge (by omega) (by omega) h
        · exact hlarge (by omega) (by omega) h
        · exact hlarge (by omega) (by omega) h
      · simp only [List.mem_cons, List.not_mem_nil, or_false] at h
        rcases h with h | h | h | h
        · exact hlarge (by omega) (by omega) h
        · exact hlarge (by omega) (by omega) h
        · exact hlarge (by omega) (by omega) h
        · exact hlarge (by omega) (by omega) h

end Uri

theorem Path.IsName.noSlash_escapedName {n : String} (h : IsName n) : '/' ∉ escapedName n := by
  intro hslash
  obtain ⟨b, hb, hescape⟩ := List.mem_flatMap.mp hslash
  obtain ⟨c, hc, hencode⟩ := List.mem_flatMap.mp hb
  rw [Uri.eq_slash_of_mem_escapeByte b hescape] at hencode
  exact h.slash (Uri.eq_slash_of_mem_encodeChar hencode ▸ hc)

theorem Path.IsName.escapedName_ne {n : String} (h : IsName n) :
    escapedName n ≠ [] ∧ escapedName n ≠ ['.'] ∧ escapedName n ≠ ['.', '.'] := by
  have hnil : escapedName "" = [] := rfl
  have hdot : escapedName "." = ['.'] := rfl
  have hparent : escapedName ".." = ['.', '.'] := rfl
  exact ⟨fun heq => h.empty (escapedName_injective (heq.trans hnil.symm)), fun heq => h.dot (escapedName_injective (heq.trans hdot.symm)),
    fun heq => h.parent (escapedName_injective (heq.trans hparent.symm))⟩

/-! ## Real paths -/

namespace Files.FileSystem

/-- There are no links. -/
def LinkFree (fs : FileSystem) : Prop := ∀ l target, fs.node? l ≠ some (.link target)

variable {fs : FileSystem}

theorem LinkFree.linkAt? (h : fs.LinkFree) (l : Location) : fs.linkAt? l = none := by
  unfold FileSystem.linkAt?
  split
  · split
    · rename_i hnode
      exact absurd hnode (h _ _)
    · rfl
  · rfl

theorem LinkFree.followNames (h : fs.LinkFree) {ns : List String} (hns : Path.AreNames ns) (depth : Nat) (active : List Location)
    (here : Location) : fs.followNames depth active here ns = ⟨here ++ ns, true⟩ := by
  induction ns generalizing here with
  | nil => rw [FileSystem.followNames, List.append_nil]
  | cons n ns ih =>
    have hn := hns n List.mem_cons_self
    rw [FileSystem.followNames, if_neg hn.dot, if_neg hn.parent, h.linkAt?]
    simp only
    rw [ih fun m hm => hns m (List.mem_cons_of_mem _ hm)]
    simp

theorem dropParents_of_areNames {ns : List String} (h : Path.AreNames ns) (above : List String) :
    Path.dropParents true above ns = above.reverse ++ ns := by
  induction ns generalizing above with
  | nil => rw [Path.dropParents, List.append_nil]
  | cons n ns ih =>
    unfold Path.dropParents
    rw [if_neg (h n List.mem_cons_self).parent, ih fun m hm => h m (List.mem_cons_of_mem _ hm)]
    simp

/-- The path of a location is its own real path where there are no links. -/
theorem realPath_of_linkFree (h : fs.LinkFree) {ns : List String} (hns : Path.AreNames ns) {l : Location}
    (hl : fs.locate true [] ⟨.slash, ns⟩ = .ok l) (cwd : Location) : fs.realPath cwd ⟨.slash, ns⟩ = .ok ns := by
  have hreal : fs.realNames ns = ns := by
    have hfilter : ns.filter (fun n => decide (n ≠ ".")) = ns := by
      rw [List.filter_eq_self]
      exact fun n hn => decide_eq_true (hns n hn).dot
    rw [realNames, h.followNames hns, List.nil_append, hfilter, dropParents_of_areNames hns]
    rfl
  have hjoin : (⟨.slash, cwd⟩ : Path).join ⟨.slash, ns⟩ = ⟨.slash, ns⟩ := rfl
  obtain ⟨hfits, -⟩ := locate_eq_ok_iff.mp hl
  rw [realPath, hfits.nul, if_neg Bool.false_ne_true, hjoin]
  simp only [hreal, hl]

/-- A name in the root directory is its own real path, unless it is a link. -/
theorem realPath_of_rootName {n : String} (hn : Path.IsName n) (hfits : (⟨.slash, [n]⟩ : Path).Fits) (hlen : n.utf8ByteSize ≤ maxName)
    (hno : ∀ target, fs.node? [n] ≠ some (.link target)) :
    fs.locate true [] ⟨.slash, [n]⟩ = .ok [n] ∧ fs.realPath [] (Path.ofText n) = .ok [n] := by
  have hnames : Path.AreNames [n] := fun m hm => List.mem_singleton.mp hm ▸ hn
  have hwalks (follow : Bool) : fs.Walks follow maxLinks [] [n] [n] := .one rfl ⟨hn.dot, hn.parent⟩ hlen (.inr hno)
  have hlocate : fs.locate true [] ⟨.slash, [n]⟩ = .ok [n] := locate_eq_ok_iff.mpr ⟨hfits, hwalks true⟩
  have hlink : fs.linkAt? [n] = none := by
    rw [linkAt?, (hwalks false).walk]
    split
    · rename_i l hl
      obtain rfl := Except.ok.inj hl
      split
      · rename_i target hnode
        exact absurd hnode (hno target)
      · rfl
    · rfl
  have hfollow (depth : Nat) : fs.followNames depth [] [] [n] = ⟨[n], true⟩ := by
    rw [followNames, if_neg hn.dot, if_neg hn.parent, List.nil_append, hlink]
    simp only
    rw [followNames]
  have hreal : fs.realNames [n] = [n] := by
    have hfilter : [n].filter (fun m => decide (m ≠ ".")) = [n] := List.filter_cons_of_pos (decide_eq_true hn.dot)
    rw [realNames, hfollow, hfilter, dropParents_of_areNames hnames]
    rfl
  have hjoin : (⟨.slash, []⟩ : Path).join ⟨.relative, [n]⟩ = ⟨.slash, [n]⟩ := rfl
  refine ⟨hlocate, ?_⟩
  rw [hn.ofText, realPath, show (⟨.relative, [n]⟩ : Path).names = [n] from rfl, hfits.nul, if_neg Bool.false_ne_true, hjoin]
  simp only [hreal, hlocate]

end Files.FileSystem

end ScriptLoader
