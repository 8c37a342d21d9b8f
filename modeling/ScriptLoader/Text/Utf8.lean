/-!
# UTF-8

Texts as bytes. `encode` writes a text; `decode` reads one and refuses bytes that are no text; `decodeLossy` puts the replacement
character for each longest start of a character that is broken off, and for each byte that starts none.
-/

namespace ScriptLoader

/-- What a file holds. -/
abbrev Bytes := List UInt8

namespace Text.Utf8

/-- The bytes of a text. -/
def encode (cs : List Char) : Bytes := cs.flatMap String.utf8EncodeChar

/-- A byte that continues a character. -/
def isTail (b : UInt8) : Bool := 0x80 ≤ b && b ≤ 0xbf

/-- The byte may stand behind the first byte `lead`: no character is written longer than necessary, and none is a surrogate or beyond
the last code point. -/
def mayFollow (lead b : UInt8) : Bool :=
  (if lead = 0xe0 then 0xa0 else if lead = 0xf0 then 0x90 else 0x80) ≤ b &&
    b ≤ (if lead = 0xed then 0x9f else if lead = 0xf4 then 0x8f else 0xbf)

/-- The low six bits of a byte. -/
def payload (b : UInt8) : Nat := b.toNat % 64

/-- The character at the head of the bytes `lead :: bs`, if there is one, and the bytes behind it or behind its broken start. -/
def head (lead : UInt8) (bs : Bytes) : Option Char × Bytes :=
  if lead < 0x80 then (some (Char.ofNat lead.toNat), bs)
  else if lead < 0xc2 || 0xf4 < lead then (none, bs)
  else
    match bs with
    | [] => (none, [])
    | b :: bs₁ =>
      if !mayFollow lead b then (none, b :: bs₁)
      else if lead < 0xe0 then (some (Char.ofNat (lead.toNat % 32 * 64 + payload b)), bs₁)
      else
        match bs₁ with
        | [] => (none, [])
        | c :: bs₂ =>
          if !isTail c then (none, c :: bs₂)
          else if lead < 0xf0 then (some (Char.ofNat ((lead.toNat % 16 * 64 + payload b) * 64 + payload c)), bs₂)
          else
            match bs₂ with
            | [] => (none, [])
            | d :: bs₃ =>
              if !isTail d then (none, d :: bs₃)
              else (some (Char.ofNat (((lead.toNat % 8 * 64 + payload b) * 64 + payload c) * 64 + payload d)), bs₃)

theorem length_head_le (lead : UInt8) (bs : Bytes) : (head lead bs).2.length ≤ bs.length := by
  unfold head
  repeat' split
  all_goals simp only [List.length_cons, List.length_nil]; omega

/-- The text that the bytes are, if they are one. -/
def decode (bs : Bytes) : Option (List Char) :=
  match bs with
  | [] => some []
  | b :: bs =>
    match h : head b bs with
    | (none, _) => none
    | (some c, rest) =>
      have : rest.length ≤ bs.length := by have := length_head_le b bs; rw [h] at this; exact this
      (decode rest).map (c :: ·)
termination_by bs.length
decreasing_by simp only [List.length_cons]; omega

/-- What stands for bytes that are no character. -/
def replacement : Char := '\ufffd'

/-- The text of the bytes with replacements where they are none. -/
def decodeLossy (bs : Bytes) : List Char :=
  match bs with
  | [] => []
  | b :: bs =>
    have : (head b bs).2.length ≤ bs.length := length_head_le b bs
    ((head b bs).1.getD replacement) :: decodeLossy (head b bs).2
termination_by bs.length
decreasing_by simp only [List.length_cons]; omega

end Text.Utf8

end ScriptLoader
