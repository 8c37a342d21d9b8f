import ScriptLoader.Cache.Entry
import ScriptLoader.Proofs.Json.Readback
import ScriptLoader.Proofs.Path
import ScriptLoader.Proofs.Text.Utf8

/-!
# Cache entries read back

An entry is read back from the bytes that it is written as, whatever characters its texts hold (`ofBytes?_bytes`), and the name of its
file is one name of a path (`isName_fileName`).
-/

namespace ScriptLoader.Cache.Entry

open Json

theorem tokensWithin_member (key value : String) (n : Nat) (cs : List Char) :
    tokensWithin (n + 3) (member key value ++ cs) =
      (tokensWithin n cs).map fun ts => .text key.toList :: .colon :: .text value.toList :: ts := by
  rw [member, List.append_assoc, List.cons_append, tokensWithin_text, tokensWithin_mark (t := .colon) (by decide) (by decide),
    tokensWithin_text]
  simp only [Option.map_map, Function.comp_def]

/-- The tokens of an entry. -/
theorem tokens_text (e : Entry) :
    tokens e.text = some [.openCurly, .text "uri".toList, .colon, .text e.uri.toList, .comma, .text "fingerprint".toList, .colon,
      .text e.fingerprint.toList, .comma, .text "code".toList, .colon, .text e.code.toList, .closeCurly] := by
  have hlen : 13 ≤ e.text.length := by
    simp [Entry.text, member, encodeText]
    omega
  obtain ⟨n, hn⟩ := Nat.exists_eq_add_of_le' hlen
  rw [tokens, hn, Entry.text, tokensWithin_mark (t := .openCurly) (by decide) (by decide), tokensWithin_member,
    tokensWithin_mark (t := .comma) (by decide) (by decide), tokensWithin_member,
    tokensWithin_mark (t := .comma) (by decide) (by decide), tokensWithin_member,
    tokensWithin_mark (t := .closeCurly) (by decide) (by decide), tokensWithin_nil]
  rfl

/-- The members of an entry, the last one first. -/
def written (e : Entry) : List (List Char × Option (List Char)) :=
  [("code".toList, some e.code.toList), ("fingerprint".toList, some e.fingerprint.toList), ("uri".toList, some e.uri.toList)]

theorem members_text (e : Entry) : Json.members e.text = some e.written := by
  rw [Json.members, tokens_text]
  rfl

theorem textOf?_uri (e : Entry) : textOf? e.written "uri" = some e.uri := congrArg some String.ofList_toList

theorem textOf?_fingerprint (e : Entry) : textOf? e.written "fingerprint" = some e.fingerprint := congrArg some String.ofList_toList

theorem textOf?_code (e : Entry) : textOf? e.written "code" = some e.code := congrArg some String.ofList_toList

/-- An entry is read back from its bytes. -/
theorem ofBytes?_bytes (e : Entry) : ofBytes? e.bytes = some e := by
  simp only [ofBytes?, bytes, Text.Utf8.decode_encode, members_text, Option.bind_eq_bind, Option.bind_some, textOf?_uri,
    textOf?_fingerprint, textOf?_code]
  rfl

/-- The entry for a source fits the sources with its URI and its fingerprint. -/
theorem fits_ofSource_iff (s t : Source) (code : String) :
    (ofSource s code).fits t = true ↔ s.uri = t.uri ∧ s.fingerprint = t.fingerprint := by
  simp [fits, ofSource]

/-! ## The name of the file -/

/-- The name of an entry's file is made of hexadecimal digits and its ending. -/
theorem not_mem_fileName {c : Char} (hdigit : ∀ n < 16, Digest.hexDigit n ≠ c) (hending : c ∉ ".json".toList) (s : Source) :
    c ∉ (fileName s).toList := by
  rw [fileName, Digest.ofText, Digest.hex, String.toList_append, String.toList_ofList, List.mem_append, List.mem_flatMap]
  rintro (⟨b, -, hb⟩ | h)
  · have hlt := b.toNat_lt
    simp only [List.mem_cons, List.not_mem_nil, or_false] at hb
    rcases hb with h | h
    · exact hdigit _ (by omega) h.symm
    · exact hdigit _ (by omega) h.symm
  · exact hending h

theorem utf8ByteSize_cons (c : Char) (cs : List Char) :
    (String.ofList (c :: cs)).utf8ByteSize = c.utf8Size + (String.ofList cs).utf8ByteSize := by
  rw [← String.utf8ByteSize_singleton, ← String.utf8ByteSize_append]
  congr 1
  apply String.toList_inj.mp
  simp

theorem utf8Size_hexDigit {n : Nat} (h : n < 16) : (Digest.hexDigit n).utf8Size = 1 := by
  revert n
  decide

theorem utf8ByteSize_hex (bs : Bytes) : (Digest.hex bs).utf8ByteSize = 2 * bs.length := by
  unfold Digest.hex
  induction bs with
  | nil => rfl
  | cons b bs ih =>
    have hlt := b.toNat_lt
    have h₁ : (Digest.hexDigit (b.toNat / 16)).utf8Size = 1 := utf8Size_hexDigit (by omega)
    have h₂ : (Digest.hexDigit (b.toNat % 16)).utf8Size = 1 := utf8Size_hexDigit (by omega)
    simp only [List.flatMap_cons, List.cons_append, List.nil_append, utf8ByteSize_cons, ih, h₁, h₂, List.length_cons]
    omega

theorem utf8ByteSize_fileName (s : Source) : (fileName s).utf8ByteSize = 69 := by
  rw [fileName, String.utf8ByteSize_append, Digest.ofText, utf8ByteSize_hex, Digest.sha256]
  rfl

/-- The name of an entry's file is a name of a path. -/
theorem isName_fileName (s : Source) : Path.IsName (fileName s) := by
  have hlen : 5 ≤ (fileName s).toList.length := by
    rw [fileName, String.toList_append, List.length_append]
    exact Nat.le_add_left ..
  refine ⟨not_mem_fileName (by decide) (by decide) s, ?_, ?_, ?_⟩ <;>
    · intro h
      rw [h] at hlen
      revert hlen
      decide

end ScriptLoader.Cache.Entry
