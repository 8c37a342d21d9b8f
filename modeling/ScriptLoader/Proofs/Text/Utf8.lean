import ScriptLoader.Text.Utf8

/-!
# UTF-8 read back

Every text is read back from the bytes that it is written as: the head of the bytes of a character is that character, whatever
stands behind it.
-/

namespace ScriptLoader.Text.Utf8

/-- The number of a byte. -/
theorem toNat_byte {n : Nat} (h : n < 256) : (UInt8.ofNat n).toNat = n := UInt8.toNat_ofNat_of_lt' h

theorem byte_lt_iff {n : Nat} (h : n < 256) (b : UInt8) : UInt8.ofNat n < b ↔ n < b.toNat := by
  rw [UInt8.lt_iff_toNat_lt, toNat_byte h]

theorem lt_byte_iff {n : Nat} (h : n < 256) (b : UInt8) : b < UInt8.ofNat n ↔ b.toNat < n := by
  rw [UInt8.lt_iff_toNat_lt, toNat_byte h]

theorem byte_le_iff {n : Nat} (h : n < 256) (b : UInt8) : UInt8.ofNat n ≤ b ↔ n ≤ b.toNat := by
  rw [UInt8.le_iff_toNat_le, toNat_byte h]

theorem le_byte_iff {n : Nat} (h : n < 256) (b : UInt8) : b ≤ UInt8.ofNat n ↔ b.toNat ≤ n := by
  rw [UInt8.le_iff_toNat_le, toNat_byte h]

theorem byte_eq_iff {n : Nat} (h : n < 256) (b : UInt8) : UInt8.ofNat n = b ↔ n = b.toNat := by
  rw [← UInt8.toNat_inj, toNat_byte h]

/-- A byte that continues a character. -/
theorem isTail_byte (n : Nat) : isTail (UInt8.ofNat (n % 64 + 128)) = true := by
  have hlt : n % 64 + 128 < 256 := by omega
  simp only [isTail, Bool.and_eq_true, decide_eq_true_eq, le_byte_iff hlt, byte_le_iff hlt]
  exact ⟨Nat.le_add_left .., by show n % 64 + 128 ≤ 191; omega⟩

theorem payload_byte (n : Nat) : payload (UInt8.ofNat (n % 64 + 128)) = n % 64 := by
  rw [payload, toNat_byte (by omega)]
  omega

/-- What may follow the first byte of a character, in numbers. -/
theorem mayFollow_byte {a b : Nat} (ha : a < 256) (hb : b < 256) (h₁ : 128 ≤ b) (h₂ : b ≤ 191) (h₃ : a = 224 → 160 ≤ b)
    (h₄ : a = 240 → 144 ≤ b) (h₅ : a = 237 → b ≤ 159) (h₆ : a = 244 → b ≤ 143) :
    mayFollow (UInt8.ofNat a) (UInt8.ofNat b) = true := by
  simp only [mayFollow, byte_eq_iff ha, Bool.and_eq_true, decide_eq_true_eq, le_byte_iff hb, byte_le_iff hb]
  constructor
  · split
    · exact h₃ ‹_›
    · split
      · exact h₄ ‹_›
      · exact h₁
  · split
    · exact h₅ ‹_›
    · split
      · exact h₆ ‹_›
      · exact h₂

/-- The first byte of a character of several bytes. -/
theorem lead_byte {a : Nat} (h₁ : 194 ≤ a) (h₂ : a ≤ 244) :
    ¬UInt8.ofNat a < 0x80 ∧ ¬(UInt8.ofNat a < 0xc2 || 0xf4 < UInt8.ofNat a) = true := by
  have hlt : a < 256 := by omega
  simp only [Bool.or_eq_true, decide_eq_true_eq, byte_lt_iff hlt, lt_byte_iff hlt]
  show ¬a < 128 ∧ ¬(a < 194 ∨ 244 < a)
  omega

/-- The bytes of a character are read as the character. -/
theorem head_encodeChar (c : Char) (bs : Bytes) :
    ∃ b tail, String.utf8EncodeChar c = b :: tail ∧ head b (tail ++ bs) = (some c, bs) := by
  have hvalid : c.toNat < 0xd800 ∨ (0xdfff < c.toNat ∧ c.toNat < 0x110000) := c.valid
  have hc : Char.ofNat c.toNat = c := Char.ofNat_toNat c
  have hv : c.val.toNat = c.toNat := rfl
  unfold String.utf8EncodeChar
  rw [hv]
  simp only
  generalize c.toNat = v at hvalid hc
  split
  · -- one byte
    refine ⟨_, _, rfl, ?_⟩
    have h₁ : UInt8.ofNat v < 0x80 := (byte_lt_iff (by omega) _).mpr (by show v < 128; omega)
    simp only [head, if_pos h₁, toNat_byte (show v < 256 by omega), hc, List.nil_append]
  split
  · -- two bytes
    refine ⟨_, _, rfl, ?_⟩
    have hlt : v / 64 % 32 + 192 < 256 := by omega
    obtain ⟨h₁, h₂⟩ := lead_byte (a := v / 64 % 32 + 192) (by omega) (by omega)
    have h₃ : UInt8.ofNat (v / 64 % 32 + 192) < 0xe0 := (byte_lt_iff hlt _).mpr (by show _ < 224; omega)
    have hfollow : mayFollow (UInt8.ofNat (v / 64 % 32 + 192)) (UInt8.ofNat (v % 64 + 128)) = true :=
      mayFollow_byte hlt (by omega) (by omega) (by omega) (by omega) (by omega) (by omega) (by omega)
    simp only [head, if_neg h₁, if_neg h₂, List.cons_append, hfollow, Bool.not_true, Bool.false_eq_true, if_false, if_pos h₃,
      payload_byte, toNat_byte hlt, List.nil_append]
    rw [show (v / 64 % 32 + 192) % 32 * 64 + v % 64 = v by omega, hc]
  split
  · -- three bytes
    refine ⟨_, _, rfl, ?_⟩
    have hlt : v / 4096 % 16 + 224 < 256 := by omega
    obtain ⟨h₁, h₂⟩ := lead_byte (a := v / 4096 % 16 + 224) (by omega) (by omega)
    have h₃ : ¬UInt8.ofNat (v / 4096 % 16 + 224) < 0xe0 := by rw [byte_lt_iff hlt]; show ¬_ < 224; omega
    have h₄ : UInt8.ofNat (v / 4096 % 16 + 224) < 0xf0 := (byte_lt_iff hlt _).mpr (by show _ < 240; omega)
    have hfollow : mayFollow (UInt8.ofNat (v / 4096 % 16 + 224)) (UInt8.ofNat (v / 64 % 64 + 128)) = true :=
      mayFollow_byte hlt (by omega) (by omega) (by omega) (by omega) (by omega) (by omega) (by omega)
    simp only [head, if_neg h₁, if_neg h₂, List.cons_append, hfollow, isTail_byte, Bool.not_true, Bool.false_eq_true, if_false,
      if_neg h₃, if_pos h₄, payload_byte, toNat_byte hlt, List.nil_append]
    rw [show ((v / 4096 % 16 + 224) % 16 * 64 + v / 64 % 64) * 64 + v % 64 = v by omega, hc]
  · -- four bytes
    refine ⟨_, _, rfl, ?_⟩
    have hlt : v / 262144 % 8 + 240 < 256 := by omega
    obtain ⟨h₁, h₂⟩ := lead_byte (a := v / 262144 % 8 + 240) (by omega) (by omega)
    have h₃ : ¬UInt8.ofNat (v / 262144 % 8 + 240) < 0xe0 := by rw [byte_lt_iff hlt]; show ¬_ < 224; omega
    have h₄ : ¬UInt8.ofNat (v / 262144 % 8 + 240) < 0xf0 := by rw [byte_lt_iff hlt]; show ¬_ < 240; omega
    have hfollow : mayFollow (UInt8.ofNat (v / 262144 % 8 + 240)) (UInt8.ofNat (v / 4096 % 64 + 128)) = true :=
      mayFollow_byte hlt (by omega) (by omega) (by omega) (by omega) (by omega) (by omega) (by omega)
    simp only [head, if_neg h₁, if_neg h₂, List.cons_append, hfollow, isTail_byte, Bool.not_true, Bool.false_eq_true, if_false,
      if_neg h₃, if_neg h₄, payload_byte, toNat_byte hlt, List.nil_append]
    rw [show (((v / 262144 % 8 + 240) % 8 * 64 + v / 4096 % 64) * 64 + v / 64 % 64) * 64 + v % 64 = v by omega, hc]

theorem decode_nil : decode [] = some [] := by rw [decode]

theorem decode_cons {b : UInt8} {bs rest : Bytes} {c : Char} (h : head b bs = (some c, rest)) :
    decode (b :: bs) = (decode rest).map (c :: ·) := by
  rw [decode]
  split
  · rename_i hnone
    rw [h] at hnone
    cases hnone
  · rename_i c' rest' hsome
    rw [h] at hsome
    injection hsome with hc hrest
    injection hc with hc
    rw [hc, hrest]

/-- The bytes of a text begin with those of its first character. -/
theorem encode_cons (c : Char) (cs : List Char) :
    ∃ b tail, encode (c :: cs) = b :: (tail ++ encode cs) ∧ head b (tail ++ encode cs) = (some c, encode cs) := by
  obtain ⟨b, tail, hbytes, hhead⟩ := head_encodeChar c (encode cs)
  refine ⟨b, tail, ?_, hhead⟩
  show String.utf8EncodeChar c ++ encode cs = _
  rw [hbytes]
  rfl

/-- Reading takes back what writing does. -/
theorem decode_encode (cs : List Char) : decode (encode cs) = some cs := by
  induction cs with
  | nil => exact decode_nil
  | cons c cs ih =>
    obtain ⟨b, tail, hcons, hhead⟩ := encode_cons c cs
    rw [hcons, decode_cons hhead, ih]
    rfl

/-- There is nothing to replace in the bytes of a text. -/
theorem decodeLossy_encode (cs : List Char) : decodeLossy (encode cs) = cs := by
  induction cs with
  | nil => rw [encode, List.flatMap_nil, decodeLossy]
  | cons c cs ih =>
    obtain ⟨b, tail, hcons, hhead⟩ := encode_cons c cs
    rw [hcons, decodeLossy, hhead]
    show c :: decodeLossy (encode cs) = _
    rw [ih]

end ScriptLoader.Text.Utf8
