import ScriptLoader.Config
import ScriptLoader.Proofs.Results
import ScriptLoader.Syntax.Specifier

/-!
# Candidates

The names under which a relative import is looked for are relative themselves (`isRelative_of_mem_candidates`). An ending is taken off
by its length in lower case, and the capital I with a point above is longer in lower case, so this needs that the character is not in
the specifier, or that what it becomes is not in the extension.
-/

namespace ScriptLoader

open Text Syntax

namespace Text

/-- The form of a character is one character, unless it is the dotted capital I. -/
theorem lowerChar_eq (c : Char) : (∃ d, lowerChar c = [d]) ∨ (c = '\u0130' ∧ lowerChar c = ['i', '\u0307']) := by
  by_cases hc : c = '\u0130'
  · exact .inr ⟨hc, by rw [hc]; decide⟩
  · refine .inl ?_
    unfold lowerChar
    rw [if_neg hc]
    split
    · exact ⟨_, rfl⟩
    · split <;> exact ⟨_, rfl⟩

theorem lowerFrom_cons (before : List Char) (c : Char) (cs : List Char) :
    (∃ d, lowerFrom before (c :: cs) = d :: lowerFrom (c :: before) cs ∧ (c = '/' → d = '/')) ∨
      (c = '\u0130' ∧ lowerFrom before (c :: cs) = 'i' :: '\u0307' :: lowerFrom (c :: before) cs) := by
  rw [lowerFrom]
  split
  · rename_i hsigma
    refine .inl ⟨_, rfl, fun hc => ?_⟩
    subst hc
    simp at hsigma
  · rcases lowerChar_eq c with ⟨d, hform⟩ | ⟨hc, hform⟩
    · rw [hform]
      refine .inl ⟨d, rfl, fun hc => ?_⟩
      subst hc
      exact (List.cons.inj hform).1.symm
    · rw [hform]
      exact .inr ⟨hc, rfl⟩

theorem length_le_lowerFrom (before cs : List Char) : cs.length ≤ (lowerFrom before cs).length := by
  induction cs generalizing before with
  | nil => exact Nat.zero_le _
  | cons c cs ih =>
    have hih := ih (c :: before)
    rcases lowerFrom_cons before c cs with ⟨d, h, -⟩ | ⟨-, h⟩ <;> rw [h] <;> simp only [List.length_cons] <;> omega

/-- An ending in lower case is the form of an ending of the same length, and a slash there is a slash here, unless the dotted capital I
is in it. -/
theorem drop_of_suffix_lowerFrom {before cs ending : List Char} (h : ending <:+ lowerFrom before cs)
    (hpoint : '\u0307' ∉ ending ∨ '\u0130' ∉ cs) :
    ending.length ≤ cs.length ∧ ('/' ∈ cs.drop (cs.length - ending.length) → '/' ∈ ending) := by
  induction cs generalizing before ending with
  | nil =>
    obtain rfl : ending = [] := List.suffix_nil.mp h
    exact ⟨Nat.le_refl _, fun hmem => nomatch hmem⟩
  | cons c cs ih =>
    have hrest : '\u0130' ∉ c :: cs → '\u0130' ∉ cs := fun hno hmem => hno (List.mem_cons_of_mem _ hmem)
    -- The ending begins behind the form of the first character.
    have hbehind (hsuffix : ending <:+ lowerFrom (c :: before) cs) :
        ending.length ≤ (c :: cs).length ∧ ('/' ∈ (c :: cs).drop ((c :: cs).length - ending.length) → '/' ∈ ending) := by
      obtain ⟨hle, hslash⟩ := ih hsuffix (hpoint.imp_right hrest)
      refine ⟨Nat.le_succ_of_le hle, ?_⟩
      rw [List.length_cons, Nat.succ_sub hle, List.drop_succ_cons]
      exact hslash
    rcases lowerFrom_cons before c cs with ⟨d, hform, hd⟩ | ⟨hc, hform⟩
    · rw [hform] at h
      rcases List.suffix_cons_iff.mp h with rfl | hsuffix
      · have hpoint' : '\u0307' ∉ lowerFrom (c :: before) cs ∨ '\u0130' ∉ cs :=
          hpoint.imp (fun hno hmem => hno (List.mem_cons_of_mem _ hmem)) hrest
        obtain ⟨hle, hslash⟩ := ih (List.suffix_refl _) hpoint'
        have hlength : (lowerFrom (c :: before) cs).length = cs.length := Nat.le_antisymm hle (length_le_lowerFrom _ _)
        rw [hlength, Nat.sub_self, List.drop_zero] at hslash
        rw [List.length_cons, List.length_cons, hlength, Nat.sub_self, List.drop_zero]
        refine ⟨Nat.le_refl _, fun hmem => ?_⟩
        rcases List.mem_cons.mp hmem with hc | hmem
        · exact hd hc.symm ▸ List.mem_cons_self
        · exact List.mem_cons_of_mem _ (hslash hmem)
      · exact hbehind hsuffix
    · rw [hform] at h
      have hending : '\u0307' ∉ ending := hpoint.elim id fun hno => absurd (hc ▸ List.mem_cons_self) hno
      rcases List.suffix_cons_iff.mp h with rfl | h
      · exact absurd (List.mem_cons_of_mem _ List.mem_cons_self) hending
      · rcases List.suffix_cons_iff.mp h with rfl | hsuffix
        · exact absurd List.mem_cons_self hending
        · exact hbehind hsuffix

end Text

namespace Syntax

theorem isRelative_iff {s : String} : isRelative s = true ↔ ∃ dots, (dots = ['.'] ∨ dots = ['.', '.']) ∧ dots ++ ['/'] <+: s.toList := by
  have hstart : isRelative s = true ↔ "./".toList.isPrefixOf s.toList = true ∨ "../".toList.isPrefixOf s.toList = true := by
    simp [isRelative, relativePrefixes]
  rw [hstart, List.isPrefixOf_iff_prefix, List.isPrefixOf_iff_prefix]
  constructor
  · rintro (h | h)
    · exact ⟨['.'], .inl rfl, h⟩
    · exact ⟨['.', '.'], .inr rfl, h⟩
  · rintro ⟨dots, rfl | rfl, h⟩
    · exact .inl h
    · exact .inr h

theorem isRelative_append {s : String} (h : isRelative s = true) (t : String) : isRelative (s ++ t) = true := by
  obtain ⟨dots, hdots, hstart⟩ := isRelative_iff.mp h
  rw [isRelative_iff, String.toList_append]
  exact ⟨dots, hdots, hstart.trans (List.prefix_append _ _)⟩

/-- A relative name stays relative if nothing is taken off its end that holds a slash. -/
theorem isRelative_take {s : String} (h : isRelative s = true) {n : Nat} (hn : '/' ∉ s.toList.drop n) :
    isRelative (String.ofList (s.toList.take n)) = true := by
  obtain ⟨dots, hdots, tail, htail⟩ := isRelative_iff.mp h
  rw [isRelative_iff, String.toList_ofList]
  refine ⟨dots, hdots, List.prefix_take_iff.mpr ⟨⟨tail, htail⟩, ?_⟩⟩
  refine Classical.byContradiction fun hlt => ?_
  rw [List.length_append, List.length_singleton, Nat.not_le] at hlt
  refine hn ?_
  rw [← htail, List.append_assoc, List.drop_append_of_le_length (Nat.le_of_lt_succ hlt)]
  exact List.mem_append_right _ List.mem_cons_self

end Syntax

namespace Config

theorem noSlash_of_extension {given ext : String} (h : extension given = .ok ext) : '/' ∉ ext.toList := by
  unfold extension at h
  simp only at h
  split at h
  · nomatch h
  · rename_i hgood
    rw [← Except.ok.inj h]
    intro hslash
    exact hgood (by simp [hslash])

/-- A configuration that has been made has a compiled extension without a slash. -/
theorem noSlash_of_make {source compiled encoding : Given} {c : Config} (h : make source compiled encoding = .ok c) :
    '/' ∉ c.compiledExtension.toList := by
  unfold make at h
  split at h
  · rename_i hcompiled _
    split at h
    · nomatch h
    · rw [← Except.ok.inj h]
      unfold field at hcompiled
      split at hcompiled
      · obtain rfl := Except.ok.inj hcompiled
        show '/' ∉ standard.compiledExtension.toList
        decide
      · exact noSlash_of_extension hcompiled
      · nomatch hcompiled
  · nomatch h

/-- The names under which the module of a relative specifier is looked for are relative. -/
theorem isRelative_of_mem_candidates {c : Config} {specifier candidate : String} (hext : '/' ∉ c.compiledExtension.toList)
    (hpoint : '\u0307' ∉ c.compiledExtension.toList ∨ '\u0130' ∉ specifier.toList) (hrelative : isRelative specifier = true)
    (hmem : candidate ∈ c.candidates specifier) : isRelative candidate = true := by
  unfold candidates at hmem
  simp only at hmem
  split at hmem
  · rename_i hends
    simp only [List.mem_cons, List.not_mem_nil, or_false] at hmem
    rcases hmem with rfl | rfl
    · exact hrelative
    · have hsuffix : c.compiledExtension.toList <:+ lowerFrom [] specifier.toList := by
        rw [endsWith, lower, String.toList_ofList, List.isSuffixOf_iff_suffix] at hends
        exact hends
      exact isRelative_append (isRelative_take hrelative fun hslash => hext ((drop_of_suffix_lowerFrom hsuffix hpoint).2 hslash)) _
  · split at hmem
    · rw [List.mem_singleton.mp hmem]
      exact hrelative
    · simp only [List.mem_cons, List.not_mem_nil, or_false] at hmem
      rcases hmem with rfl | rfl | rfl
      · exact isRelative_append hrelative _
      · exact isRelative_append hrelative _
      · exact isRelative_append (isRelative_append hrelative _) _

end Config

end ScriptLoader
