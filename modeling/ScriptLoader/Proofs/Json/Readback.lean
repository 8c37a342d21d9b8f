import ScriptLoader.Json.Members

/-!
# JSON read back

A text in quotes is read as the text, whatever its characters are, and a document that is put together from marks and texts is read
token by token.
-/

namespace ScriptLoader.Json

/-- The four digits of a control character. -/
theorem unit?_of_control {n : Nat} (h : n < 0x20) :
    unit? '0' '0' (Digest.hexDigit (n / 16)) (Digest.hexDigit (n % 16)) = some n := by
  revert n
  decide

theorem readText_unit {a b c d : Char} {n : Nat} (h : unit? a b c d = some n) (hhigh : isHigh n = false) (hlow : isLow n = false)
    (cs : List Char) :
    readText ('\\' :: 'u' :: a :: b :: c :: d :: cs) = (readText cs).map fun r => (Char.ofNat n :: r.1, r.2) := by
  rw [readText, h]
  simp [hhigh, hlow]

theorem readText_escaped {c x : Char} (hc : c ≠ 'u') (h : escaped? c = some x) (cs : List Char) :
    readText ('\\' :: c :: cs) = (readText cs).map fun r => (x :: r.1, r.2) := by
  rw [readText]
  · rw [h]
  · intro a b c' d cs' hu _
    exact absurd hu hc

theorem readText_plain {c : Char} (hquote : c ≠ '\x22') (hslash : c ≠ '\\') (hcontrol : ¬c.toNat < 0x20) (cs : List Char) :
    readText (c :: cs) = (readText cs).map fun r => (c :: r.1, r.2) := by
  rw [readText]
  · simp [hslash, hcontrol]
  · exact hquote
  · intro a b c' d cs' hc _
    exact hslash hc
  · intro c' cs' hc _
    exact hslash hc

/-- A character is read back from what it is written as. -/
theorem readText_encodeChar (c : Char) (cs : List Char) :
    readText (encodeChar c ++ cs) = (readText cs).map fun r => (c :: r.1, r.2) := by
  unfold encodeChar
  -- the characters that have an escape of their own
  iterate 7
    split
    · exact readText_escaped (by decide) (by rw [‹c = _›]; rfl) cs
  split
  · rename_i h
    have hhigh : isHigh c.toNat = false := by simp [isHigh]; omega
    have hlow : isLow c.toNat = false := by simp [isLow]; omega
    have hread := readText_unit (unit?_of_control h) hhigh hlow cs
    rw [Char.ofNat_toNat] at hread
    exact hread
  · rename_i hquote hslash _ _ _ _ _ hcontrol
    exact readText_plain hquote hslash hcontrol cs

/-- A text is read back up to its closing quote. -/
theorem readText_encode (s cs : List Char) : readText (s.flatMap encodeChar ++ '\x22' :: cs) = some (s, cs) := by
  induction s with
  | nil => rw [List.flatMap_nil, List.nil_append, readText]
  | cons c s ih =>
    rw [List.flatMap_cons, List.append_assoc, readText_encodeChar, ih]
    rfl

/-! ## Documents -/

theorem tokensWithin_nil (n : Nat) : tokensWithin n [] = some [] := by cases n <;> rfl

theorem tokensWithin_mark {c : Char} {t : Token} (hblank : isBlank c = false) (h : mark? c = some t) (n : Nat) (cs : List Char) :
    tokensWithin (n + 1) (c :: cs) = (tokensWithin n cs).map (t :: ·) := by
  rw [tokensWithin]
  simp [hblank, h]

theorem tokensWithin_text (s : List Char) (n : Nat) (cs : List Char) :
    tokensWithin (n + 1) (encodeText s ++ cs) = (tokensWithin n cs).map (.text s :: ·) := by
  have hread : readText (s.flatMap encodeChar ++ ['\x22'] ++ cs) = some (s, cs) := by
    rw [List.append_assoc]
    exact readText_encode s cs
  rw [encodeText, List.cons_append, tokensWithin]
  simp only [hread]
  rfl

end ScriptLoader.Json
