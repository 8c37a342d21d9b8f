import ScriptLoader.Path
import ScriptLoader.Proofs.Text.Utf8
import ScriptLoader.Uri.Reference

/-!
# URIs of files

The URI of an absolute path is read back: it is a `file` URI without an authority (`parse_uri`), and its path stands for the path that
it was made from (`unescaped_path_uri`), whatever characters that has.
-/

namespace ScriptLoader

open Text

namespace Uri

/-- A character that stands for itself in every part of a reference, and ends none. -/
structure Inert (c : Char) : Prop where
  visible : 0x20 < c.toNat
  ascii : c.toNat < 0x80
  query : c ≠ '?'
  fragment : c ≠ '#'

instance (c : Char) : Decidable (Inert c) :=
  decidable_of_iff (0x20 < c.toNat ∧ c.toNat < 0x80 ∧ c ≠ '?' ∧ c ≠ '#')
    ⟨fun ⟨h₁, h₂, h₃, h₄⟩ => ⟨h₁, h₂, h₃, h₄⟩, fun h => ⟨h.visible, h.ascii, h.query, h.fragment⟩⟩

/-- A property of all bytes is checked byte by byte. -/
theorem forall_byte {P : UInt8 → Prop} (h : ∀ n < 256, P (UInt8.ofNat n)) (b : UInt8) : P b := by
  rw [← UInt8.ofNat_toNat (x := b)]
  exact h _ b.toNat_lt

theorem inert_of_mem_escapeByte (b : UInt8) : ∀ c ∈ escapeByte b, Inert c := by
  have hall : (escapeByte b).all (fun c => decide (Inert c)) = true := by
    revert b
    apply forall_byte
    decide +kernel
  simpa using hall

theorem inert_of_mem_escape {bs : Bytes} {c : Char} (h : c ∈ escape bs) : Inert c := by
  obtain ⟨b, -, hb⟩ := List.mem_flatMap.mp h
  exact inert_of_mem_escapeByte b c hb

/-- A byte that is plain is not the one that begins an escape. -/
theorem ofNat_ne_percent (b : UInt8) : isPlain b = true → Char.ofNat b.toNat ≠ '%' := by
  revert b
  apply forall_byte
  decide +kernel

theorem toNat_ofNat_plain (b : UInt8) : isPlain b = true → UInt8.ofNat (Char.ofNat b.toNat).toNat = b := by
  revert b
  apply forall_byte
  decide +kernel

/-- The digits of an escape are those of its byte. -/
theorem escapedByte?_escapeDigit (b : UInt8) :
    escapedByte? (escapeDigit (b.toNat / 16)) (escapeDigit (b.toNat % 16)) = some b := by
  revert b
  apply forall_byte
  decide +kernel

theorem unescape_cons {c : Char} (h : c ≠ '%') (cs : List Char) : unescape (c :: cs) = UInt8.ofNat c.toNat :: unescape cs := by
  rw [unescape]
  rintro a b rest hc -
  exact h hc

theorem unescape_escapeByte (b : UInt8) (cs : List Char) : unescape (escapeByte b ++ cs) = b :: unescape cs := by
  unfold escapeByte
  split
  · rename_i hplain
    rw [List.singleton_append, unescape_cons (ofNat_ne_percent b hplain), toNat_ofNat_plain b hplain]
  · simp only [List.cons_append, List.nil_append, unescape, escapedByte?_escapeDigit]

/-- Escaped bytes are read back. -/
theorem unescape_escape (bs : Bytes) : unescape (escape bs) = bs := by
  induction bs with
  | nil => rfl
  | cons b bs ih =>
    show unescape (escapeByte b ++ escape bs) = _
    rw [unescape_escapeByte, ih]

theorem takeWhile_of_forall {p : Char → Bool} {cs : List Char} (h : ∀ c ∈ cs, p c = true) :
    cs.takeWhile p = cs ∧ cs.dropWhile p = [] := by
  induction cs with
  | nil => exact ⟨rfl, rfl⟩
  | cons c cs ih =>
    obtain ⟨htake, hdrop⟩ := ih fun d hd => h d (List.mem_cons_of_mem _ hd)
    rw [List.takeWhile_cons, List.dropWhile_cons, if_pos (h c List.mem_cons_self), if_pos (h c List.mem_cons_self), htake]
    exact ⟨rfl, hdrop⟩

/-- Text in ASCII is one stretch of bytes. -/
theorem unescapeText_of_ascii {cs : List Char} (h : ∀ c ∈ cs, isAscii c = true) :
    unescapeText cs = Utf8.decodeLossy (unescape cs) := by
  cases cs with
  | nil => rw [unescapeText, unescape, Utf8.decodeLossy]
  | cons c cs =>
    obtain ⟨htake, hdrop⟩ := takeWhile_of_forall fun d hd => h d (List.mem_cons_of_mem _ hd)
    rw [unescapeText, if_pos (h c List.mem_cons_self), htake, hdrop, unescapeText, List.append_nil]

/-- An escaped text is read back. -/
theorem unescaped_escape (s : String) : unescaped (String.ofList (escape (Utf8.encode s.toList))) = s := by
  have hascii : ∀ c ∈ escape (Utf8.encode s.toList), isAscii c = true := fun c hc =>
    decide_eq_true (inert_of_mem_escape hc).ascii
  rw [unescaped, String.toList_ofList, unescapeText_of_ascii hascii, unescape_escape, Utf8.decodeLossy_encode,
    String.ofList_toList]

theorem divide_of_not_mem {mark : Char} {cs : List Char} (h : mark ∉ cs) : divide mark cs = (cs, []) := by
  have hne : ∀ c ∈ cs, (!decide (c = mark)) = true := by
    intro c hc
    have hc' : c ≠ mark := fun heq => h (by rwa [heq] at hc)
    simp [hc']
  obtain ⟨htake, hdrop⟩ := takeWhile_of_forall hne
  simp only [divide, cut, htake, hdrop, List.drop_nil]

/-- A text without blanks and control characters is as it is when it is cleaned. -/
theorem cleaned_of_visible {s : String} (h : ∀ c ∈ s.toList, 0x20 < c.toNat) : cleaned s = s.toList := by
  have hdrop : (s.toList.dropWhile fun c => decide (c.toNat ≤ 0x20)) = s.toList := by
    cases hs : s.toList with
    | nil => rfl
    | cons c cs =>
      have hc : ¬c.toNat ≤ 0x20 := Nat.not_le.mpr (h c (hs ▸ List.mem_cons_self))
      simp [hc]
  rw [cleaned, hdrop, List.filter_eq_self]
  intro c hc
  have hlt := h c hc
  have h₁ : c ≠ '\t' := by rintro rfl; revert hlt; decide
  have h₂ : c ≠ '\r' := by rintro rfl; revert hlt; decide
  have h₃ : c ≠ '\n' := by rintro rfl; revert hlt; decide
  simp [h₁, h₂, h₃]

theorem authorityFault?_nil : authorityFault? [] = none := by decide

end Uri

namespace Path

open Uri

theorem toList_text_of_isAbsolute {p : Path} (h : p.isAbsolute = true) : ∃ cs, p.text.toList = '/' :: cs := by
  obtain ⟨r, ns⟩ := p
  have hroot : ∃ cs, (r.text ++ joinFields '/' ns).toList = '/' :: cs := by
    cases r with
    | relative => simp [isAbsolute] at h
    | slash => exact ⟨_, String.toList_append⟩
    | doubleSlash => exact ⟨_, String.toList_append⟩
  obtain ⟨cs, hcs⟩ := hroot
  refine ⟨cs, ?_⟩
  have hne : (r.text ++ joinFields '/' ns).isEmpty = false := by
    rw [Bool.eq_false_iff]
    intro hempty
    rw [String.isEmpty_iff.mp hempty] at hcs
    nomatch hcs
  simp only [text, hne, Bool.false_eq_true, if_false]
  exact hcs

/-- The path of the URI of a path. -/
def escaped (p : Path) : List Char := escape (Utf8.encode p.text.toList)

/-- The URI of an absolute path is a `file` URI without an authority. -/
theorem parse_uri {p : Path} (h : p.isAbsolute = true) :
    Reference.parse "" p.uri = .ok ⟨"file", "", String.ofList p.escaped, "", ""⟩ := by
  have hinert : ∀ c ∈ p.escaped, Inert c := fun c hc => inert_of_mem_escape hc
  obtain ⟨cs, hcs⟩ : ∃ cs, p.escaped = '/' :: cs := by
    obtain ⟨cs, hcs⟩ := toList_text_of_isAbsolute h
    exact ⟨escape (Utf8.encode cs), by rw [escaped, hcs]; rfl⟩
  have htext : p.uri.toList = 'f' :: 'i' :: 'l' :: 'e' :: ':' :: '/' :: '/' :: p.escaped := by
    rw [uri, String.toList_append, String.toList_ofList, ← escaped]
    simp only [String.toList_ofList, List.cons_append, List.nil_append]
  have hclean : cleaned p.uri = 'f' :: 'i' :: 'l' :: 'e' :: ':' :: '/' :: '/' :: p.escaped := by
    rw [cleaned_of_visible, htext]
    rw [htext]
    intro c hc
    simp only [List.mem_cons] at hc
    rcases hc with rfl | rfl | rfl | rfl | rfl | rfl | rfl | hc
    case inr.inr.inr.inr.inr.inr.inr => exact (hinert c hc).visible
    all_goals decide
  have hscheme : schemeOf? (cleaned p.uri) = some ("file".toList, '/' :: '/' :: p.escaped) := by rw [hclean]; rfl
  have hauthority : authorityOf ('/' :: '/' :: p.escaped) = ([], p.escaped) := by rw [hcs]; rfl
  have hlower : lower (String.ofList "file".toList) = "file" := by decide
  have hfragment : '#' ∉ p.escaped := fun hc => (hinert _ hc).fragment rfl
  have hquery : '?' ∉ p.escaped := fun hc => (hinert _ hc).query rfl
  simp only [Reference.parse, hscheme, hauthority, authorityFault?_nil, divide_of_not_mem hfragment, divide_of_not_mem hquery, hlower]

/-- The path of a URI stands for the path that the URI was made from. -/
theorem unescaped_escaped (p : Path) : unescaped (String.ofList p.escaped) = p.text := unescaped_escape p.text

end Path

end ScriptLoader
