/-!
# Fields of a text

A text is cut at every occurrence of a separator, and fields are put together with a separator between them. Joining the fields of a
text gives the text back.
-/

namespace ScriptLoader.Text

/-- The pieces between the separators: one more than there are separators. -/
def pieces (sep : Char) : List Char → List (List Char)
  | [] => [[]]
  | c :: cs =>
    if c = sep then [] :: pieces sep cs
    else
      match pieces sep cs with
      | [] => [[c]]
      | p :: ps => (c :: p) :: ps

/-- The pieces with a separator between each two. -/
def glue (sep : Char) : List (List Char) → List Char
  | [] => []
  | [p] => p
  | p :: q :: ps => p ++ sep :: glue sep (q :: ps)

theorem pieces_ne_nil (sep : Char) (cs : List Char) : pieces sep cs ≠ [] := by
  cases cs with
  | nil => simp [pieces]
  | cons c cs =>
    unfold pieces
    split
    · simp
    · split <;> simp

theorem glue_pieces (sep : Char) (cs : List Char) : glue sep (pieces sep cs) = cs := by
  induction cs with
  | nil => rfl
  | cons c cs ih =>
    unfold pieces
    split
    · rename_i h
      cases hp : pieces sep cs with
      | nil => exact absurd hp (pieces_ne_nil sep cs)
      | cons p ps => rw [hp] at ih; simp [glue, ih, h]
    · split
      · rename_i hp
        exact absurd hp (pieces_ne_nil sep cs)
      · rename_i p ps hp
        rw [hp] at ih
        cases ps with
        | nil => simp [glue] at ih ⊢; exact ih
        | cons q ps => simp [glue] at ih ⊢; exact ih

/-- The fields of a text. -/
def fields (sep : Char) (s : String) : List String := (pieces sep s.toList).map String.ofList

/-- The fields as one text. -/
def joinFields (sep : Char) (fs : List String) : String := String.ofList (glue sep (fs.map String.toList))

theorem joinFields_fields (sep : Char) (s : String) : joinFields sep (fields sep s) = s := by
  have h : ((pieces sep s.toList).map String.ofList).map String.toList = pieces sep s.toList := by
    simp [List.map_map, Function.comp_def]
  simp [joinFields, fields, h, glue_pieces]

/-- The characters before the first one that satisfies `p`, and those from it on. -/
def cut (p : Char → Bool) (cs : List Char) : List Char × List Char :=
  (cs.takeWhile (fun c => !p c), cs.dropWhile (fun c => !p c))

theorem cut_append (p : Char → Bool) (cs : List Char) : (cut p cs).1 ++ (cut p cs).2 = cs := by
  simp [cut, List.takeWhile_append_dropWhile]

end ScriptLoader.Text
