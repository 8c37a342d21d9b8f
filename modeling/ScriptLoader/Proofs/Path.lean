import ScriptLoader.Path

/-!
# Names in paths

A text that can be the name of a file is read as a path with just this name, so it can be put behind a directory.
-/

namespace ScriptLoader

open Text

theorem Text.pieces_of_not_mem {sep : Char} {cs : List Char} (h : sep ∉ cs) : pieces sep cs = [cs] := by
  induction cs with
  | nil => rfl
  | cons c cs ih =>
    rw [List.mem_cons, not_or] at h
    rw [pieces, if_neg (Ne.symm h.1), ih h.2]

/-- One more piece adds itself and perhaps a separator. -/
theorem Text.glue_snoc (sep : Char) (ps : List (List Char)) (q : List Char) :
    glue sep (ps ++ [q]) = glue sep ps ++ q ∨ glue sep (ps ++ [q]) = glue sep ps ++ sep :: q := by
  induction ps with
  | nil => exact .inl rfl
  | cons p ps ih =>
    cases ps with
    | nil => exact .inr rfl
    | cons p' ps =>
      have hcons (r : List (List Char)) : glue sep (p :: p' :: r) = p ++ sep :: glue sep (p' :: r) := rfl
      rcases ih with h | h
      · left
        rw [List.cons_append, List.cons_append, hcons, hcons, ← List.cons_append, h]
        simp
      · right
        rw [List.cons_append, List.cons_append, hcons, hcons, ← List.cons_append, h]
        simp

theorem Text.utf8ByteSize_joinFields_snoc (ns : List String) (n : String) :
    (joinFields '/' (ns ++ [n])).utf8ByteSize = (joinFields '/' ns).utf8ByteSize + n.utf8ByteSize ∨
      (joinFields '/' (ns ++ [n])).utf8ByteSize = (joinFields '/' ns).utf8ByteSize + (1 + n.utf8ByteSize) := by
  have hjoin (ns : List String) : joinFields '/' ns = String.ofList (glue '/' (ns.map String.toList)) := rfl
  rw [hjoin, List.map_append, List.map_singleton]
  rcases glue_snoc '/' (ns.map String.toList) n.toList with h | h
  · left
    rw [h, String.ofList_append, String.utf8ByteSize_append, ← hjoin, String.ofList_toList]
  · right
    have hcons : String.ofList ('/' :: n.toList) = "/" ++ n := String.toList_inj.mp (by simp)
    rw [h, String.ofList_append, String.utf8ByteSize_append, ← hjoin, hcons, String.utf8ByteSize_append]
    rfl

namespace Path

/-- How long a path is: as long as it is written, but never empty. -/
theorem utf8ByteSize_text (r : Root) (ns : List String) :
    (⟨r, ns⟩ : Path).text.utf8ByteSize = max 1 (r.text.utf8ByteSize + (joinFields '/' ns).utf8ByteSize) := by
  rw [← String.utf8ByteSize_append, Path.text]
  simp only
  split
  · rename_i h
    rw [String.isEmpty_iff.mp h]
    rfl
  · rename_i h
    have hpos : (r.text ++ joinFields '/' ns).utf8ByteSize ≠ 0 := fun hzero =>
      h (String.isEmpty_iff.mpr (String.utf8ByteSize_eq_zero_iff.mp hzero))
    omega

/-- The text can be the name of a file. -/
structure IsName (n : String) : Prop where
  slash : '/' ∉ n.toList
  empty : n ≠ ""
  dot : n ≠ "."
  parent : n ≠ ".."

theorem IsName.ofText {n : String} (h : IsName n) : ofText n = ⟨.relative, [n]⟩ := by
  have hroot : Root.ofChars n.toList = .relative := by
    have hslash := h.slash
    unfold Root.ofChars
    split
    · rename_i hn
      exact absurd (hn ▸ List.mem_cons_self) hslash
    · rename_i hn
      exact absurd (hn ▸ List.mem_cons_self) hslash
    · rename_i hn
      exact absurd (hn ▸ List.mem_cons_self) hslash
    · rfl
  rw [Path.ofText, hroot, namesOf, fields, pieces_of_not_mem h.slash]
  simp [h.empty, h.dot]

/-- A name behind a directory. -/
theorem IsName.join {n : String} (h : IsName n) (d : Path) : d.join (Path.ofText n) = ⟨d.root, d.names ++ [n]⟩ := by
  rw [h.ofText, Path.join]
  rfl

end Path

end ScriptLoader
