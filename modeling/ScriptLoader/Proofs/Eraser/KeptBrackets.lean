import ScriptLoader.Proofs.Core.Keeping
import ScriptLoader.Proofs.Eraser.Ending
import ScriptLoader.Proofs.Eraser.Growth

/-!
# The brackets of the output

Whole types, declarations and clauses are skipped with the brackets in them, and an `export` or a blank that was kept may be taken back.
Still the brackets that the walk has kept one by one are always those that its frames are for: the ones that are open among them are the
brackets of the frames, so that all of them are nested at the end (`kept_brackets_nested`). Declarations of modules that are copied as a
block (`copied`) are left out of account, because the walk has no frames for the brackets in them.
-/

namespace ScriptLoader.Syntax

namespace Eraser

/-! ## Blocks that are copied -/

/-- At the token the walk copies a declaration of a module as a block: an import of values, or a clause of exports. -/
def copiesModule (e : Eraser) (t : Token) (ts : List Token) : Bool :=
  t.kind = .identifier && !(e.previousText = some "." || e.previousText = some "?.") && e.atStatementStart &&
    ((t.text = "import" && !headIn (significant ts) ["(", "."] && !importsType ts) ||
      (t.text = "export" && headIn (significant ts) ["\x7b", "*"]))

/-- The tokens that the walk copies in such blocks. -/
def copied (e : Eraser) : List Token :=
  match hrest : e.rest with
  | [] => []
  | t :: ts =>
    match step e t ts with
    | .error _ => []
    | .ok e' =>
      have : weight e'.1.rest < weight e.rest := by rw [hrest]; exact e'.2
      (if e.copiesModule t ts then (t :: ts).take ((t :: ts).length - e'.1.rest.length) else []) ++ copied e'.1
termination_by weight e.rest

section Blocks

variable {e : Eraser} {t : Token} {ts : List Token} {e' : Next (t :: ts)}

/-- A block is copied as an import or as a clause of exports, and in no other way. -/
theorem step_of_copiesModule (h : e.copiesModule t ts = true) :
    (t.text = "import" ∧ (step e t ts).map (·.1) = (copyImport (keep e t ts).1 ts).map (·.1)) ∨
      (t.text = "export" ∧ step e t ts = copyExport e t ts) := by
  simp only [copiesModule, Bool.and_eq_true, Bool.or_eq_true, Bool.not_eq_true', decide_eq_true_eq] at h
  obtain ⟨⟨⟨hkind, hpoint⟩, hstart⟩, ⟨⟨htext, hcall⟩, htype⟩ | ⟨htext, hclause⟩⟩ := h
  · refine .inl ⟨htext, ?_⟩
    have hstatement : onStatement e t ts = (copyImport (keep e t ts).1 ts).map fun e' =>
        some ⟨e'.1, Nat.lt_of_le_of_lt e'.2 (by simp [t.width_pos])⟩ := by
      simp [onStatement, htext, hcall, htype]
    rw [step_of_identifier hkind, onIdentifier, hpoint, htext, hstart, hstatement]
    cases copyImport (keep e t ts).1 ts <;> rfl
  · refine .inr ⟨htext, ?_⟩
    have htypes : headIn (significant ts) ["type"] = false := by
      cases hs : significant ts with
      | nil => rfl
      | cons u us =>
        rw [hs, headIn, List.contains_iff_mem, List.mem_cons, List.mem_singleton] at hclause
        rcases hclause with h | h <;> rw [headIn, h] <;> decide
    have hstatement : onStatement e t ts = (copyExport e t ts).map some := by
      simp [onStatement, htext, hclause, htypes]
    rw [step_of_identifier hkind, onIdentifier, hpoint, htext, hstart, hstatement]
    cases copyExport e t ts <;> rfl

theorem copied_of_step (hrest : e.rest = t :: ts) (h : step e t ts = .ok e') :
    copied e = (if e.copiesModule t ts then (t :: ts).take ((t :: ts).length - e'.1.rest.length) else []) ++ copied e'.1 := by
  rw [copied]
  split
  · rename_i hnil
    cases hrest.symm.trans hnil
  · rename_i hcons
    obtain ⟨rfl, rfl⟩ := List.cons.inj (hrest.symm.trans hcons)
    rw [h]

/-- A declaration at which no block is copied is skipped. -/
theorem sheds_of_onStatement {e' : Next (t :: ts)}
    (himport : t.text = "import" → headIn (significant ts) ["(", "."] = false → importsType ts = true)
    (hexport : t.text = "export" → headIn (significant ts) ["\x7b", "*"] = false) (h : onStatement e t ts = .ok (some e')) :
    Sheds e e'.1.kept := by
  unfold onStatement at h
  simp only at h
  split at h
  · obtain ⟨r, _, hr⟩ := ok_of_map h
    obtain rfl := Option.some.inj hr
    exact .module
  split at h
  · obtain ⟨r, _, hr⟩ := ok_of_map h
    obtain rfl := Option.some.inj hr
    exact .module
  split at h
  · obtain ⟨r, _, hr⟩ := ok_of_map h
    obtain rfl := Option.some.inj hr
    exact .module
  split at h
  · nomatch h
  split at h
  · nomatch h
  split at h
  · rename_i hvalue
    simp only [Bool.and_eq_true, decide_eq_true_eq, Bool.not_eq_true'] at hvalue
    rw [if_pos (himport hvalue.1 hvalue.2)] at h
    obtain rfl := Option.some.inj (Except.ok.inj h)
    exact .nothing
  split at h
  · obtain rfl := Option.some.inj (Except.ok.inj h)
    exact .nothing
  split at h
  · rename_i hclause
    simp only [Bool.and_eq_true, decide_eq_true_eq] at hclause
    cases (hexport hclause.1).symm.trans hclause.2
  · nomatch h

theorem sheds_or_keeps_onWord {e' : Next (t :: ts)} (h : onWord e t ts = .ok e') : Sheds e e'.1.kept ∨ e'.1.kept = t :: e.kept := by
  unfold onWord at h
  simp only at h
  split at h
  · nomatch h
  split at h
  · obtain rfl := Except.ok.inj h
    exact .inl .nothing
  split at h
  · obtain ⟨r, _, rfl⟩ := ok_of_map h
    exact .inl .blanks
  split at h
  · obtain ⟨r, _, rfl⟩ := ok_of_map h
    exact .inl .blanks
  · obtain rfl := Except.ok.inj h
    exact .inr (congrArg (t :: ·) (stays_noteWord e t.text (significant ts)).kept)

/-- A word at which no block is copied is kept or skipped. -/
theorem sheds_or_keeps_onIdentifier {e' : Next (t :: ts)} (hkind : t.kind = .identifier) (hmodule : e.copiesModule t ts = false)
    (h : onIdentifier e t ts = .ok e') : Sheds e e'.1.kept ∨ e'.1.kept = t :: e.kept := by
  unfold onIdentifier at h
  split at h
  · obtain rfl := Except.ok.inj h
    exact .inr rfl
  rename_i hpoint
  split at h
  · obtain ⟨r, _, rfl⟩ := ok_of_map h
    exact .inl .nothing
  split at h
  · rename_i hstart
    simp only [copiesModule, hkind, hpoint, hstart, decide_true, Bool.not_false, Bool.true_and, Bool.or_eq_false_iff] at hmodule
    split at h
    · nomatch h
    · rename_i e₁ he₁
      obtain rfl := Except.ok.inj h
      refine .inl (sheds_of_onStatement (fun htext hcall => ?_) (fun htext => ?_) he₁)
      · simpa [htext, hcall] using hmodule.1
      · simpa [htext] using hmodule.2
    · exact sheds_or_keeps_onWord h
  · exact sheds_or_keeps_onWord h

end Blocks

/-! ## What a step does to the brackets -/

/-- What a step keeps that copies no block, and what it does to the frames: it keeps nothing, or one token that is no bracket, or one that
opens a frame or closes the innermost. -/
inductive Keeps (e e' : Eraser) : Prop where
  | nothing (sheds : Sheds e e'.kept) (brackets : SameBrackets e e') : Keeps e e'
  | plain {u : Token} (kept : e'.kept = u :: e.kept) (isNone : u.kind = .punctuation → Bracket.IsNone u)
      (brackets : SameBrackets e e') : Keeps e e'
  | opens {u : Token} {us : List Token} {b : Bracket} (kept : e'.kept = u :: e.kept) (rest : e.rest = u :: us)
      (kind : u.kind = .punctuation) (opened : u.text = b.opener) (frame : e'.frame.bracket = some b)
      (outer : e'.outer = e.frame :: e.outer) : Keeps e e'
  | closes {u : Token} {us : List Token} {b : Bracket} (kept : e'.kept = u :: e.kept) (rest : e.rest = u :: us)
      (kind : u.kind = .punctuation) (closed : u.text = b.closer) (frame : e.frame.bracket = some b)
      (outer : e.outer = e'.frame :: e'.outer) : Keeps e e'

section Steps

variable {e : Eraser} {t : Token} {ts : List Token}

/-- A mark is skipped, or it is the one token that is kept. -/
theorem keeps_onMark {e' : Next (t :: ts)} (hkind : t.kind = .punctuation) (hrest : e.rest = t :: ts) (h : onMark e t ts = .ok e') :
    Keeps e e'.1 := by
  cases turns_onMark h with
  | same hnone hsame _ =>
    obtain ⟨taken, htaken, -, hsheds | ⟨hkept, u, us, rfl, hlast | hmodule⟩⟩ := moves_onMark h
    · exact .nothing hsheds hsame
    · obtain ⟨rfl, -⟩ := List.cons.inj htaken
      rw [hlast] at hkept
      exact .plain hkept (fun _ => hnone) hsame
    · obtain ⟨rfl, -⟩ := List.cons.inj htaken
      cases hkind.symm.trans hmodule.kind
  | @opens b hopened hframe houter _ =>
    have htext := Bracket.eq_opener hopened
    rw [onMark_of_opener htext] at h
    obtain rfl := Except.ok.inj h
    exact .opens rfl hrest hkind htext hframe houter
  | @closes b hopened hclosed hframe houter _ =>
    have htext := Bracket.eq_closer hclosed
    have hother : t.text ∉ ["?", "!", ":", "<"] := by rw [htext]; cases b <;> decide
    simp only [List.mem_cons, List.not_mem_nil, or_false, not_or] at hother
    obtain ⟨h₁, h₂, h₃, h₄⟩ := hother
    rw [onMark, if_neg h₁, decide_eq_false h₂, Bool.false_and, if_neg Bool.false_ne_true, if_neg h₃, if_neg h₄, hopened, hclosed] at h
    simp only [onClosing, houter, hframe, if_true] at h
    have hkept : e'.1.kept = t :: e.kept := by rw [← Except.ok.inj h]; rfl
    exact .closes hkept hrest hkind htext hframe houter

theorem keeps_of_step {e' : Next (t :: ts)} (hrest : e.rest = t :: ts) (hmodule : e.copiesModule t ts = false) (h : step e t ts = .ok e') :
    Keeps e e'.1 := by
  unfold step at h
  split at h
  · rename_i htrivia
    obtain rfl := Except.ok.inj h
    have hkept : (onTrivia e t ts).1.kept = t :: e.kept := by
      unfold onTrivia
      split
      · split <;> rfl
      · rfl
    exact .plain hkept (fun hkind => by simp [Token.isTrivia, hkind] at htrivia) (sameBrackets_onTrivia e t ts)
  split at h
  · rename_i hkind
    have hsame := sameBrackets_onIdentifier h
    rcases sheds_or_keeps_onIdentifier hkind hmodule h with hsheds | hkept
    · exact .nothing hsheds hsame
    · exact .plain hkept (fun hmark => by cases hkind.symm.trans hmark) hsame
  split at h
  · rename_i hkind
    unfold onPunctuation at h
    split at h
    · split at h
      · unfold onRegex at h
        simp only at h
        split at h
        · cases h
        · obtain rfl := Except.ok.inj h
          exact .plain rfl (fun hmark => by cases hmark) ⟨rfl, rfl⟩
      · exact keeps_onMark hkind hrest h
    · exact keeps_onMark hkind hrest h
  · rename_i hkind
    obtain rfl := Except.ok.inj h
    exact .plain rfl (fun hmark => absurd hmark hkind) ⟨rfl, rfl⟩

end Steps

/-! ## Where blocks stand -/

section Places

variable {content : List Char} {e : Eraser} {u : Token}

theorem Whole.start_lt_offset (h : Whole content e) (hu : u ∈ e.passed) : u.start < e.offset := by
  obtain ⟨front, back, hpassed⟩ := List.append_of_mem (List.mem_reverse.mpr hu)
  have hbuffer : e.buffer = front ++ u :: (back ++ e.rest) := by rw [buffer, hpassed, List.append_assoc, List.cons_append]
  have hpos := h.pos_of_mem (List.mem_append_left _ (List.mem_reverse.mpr hu))
  rw [(h.cuts.placed _ _ _ hbuffer).1, offset, hpassed, sourceText_append, sourceText_cons]
  simp only [List.length_append]
  omega

theorem Whole.offset_le_start (h : Whole content e) (hu : u ∈ e.rest) : e.offset ≤ u.start := by
  obtain ⟨front, back, hrest⟩ := List.append_of_mem hu
  have hbuffer : e.buffer = (e.passed.reverse ++ front) ++ u :: back := by rw [buffer, hrest, List.append_assoc]
  rw [(h.cuts.placed _ _ _ hbuffer).1, offset, sourceText_append, List.length_append]
  exact Nat.le_add_right ..

/-- The blocks that the walk will copy stand in front of it. -/
theorem Whole.offset_le_of_mem_copied (h : Whole content e) (hu : u ∈ copied e) : e.offset ≤ u.start := by
  fun_induction copied e with
  | case1 => nomatch hu
  | case2 => nomatch hu
  | case3 e t ts hrest e' hs _ ih =>
    have hsteps : Steps e e'.1 := .intro hrest hs
    rcases List.mem_append.mp hu with hblock | hlater
    · split at hblock
      · exact h.offset_le_start (hrest ▸ List.mem_of_mem_take hblock)
      · nomatch hblock
    · exact Nat.le_trans (Nat.le_of_lt (h.offset_lt hsteps)) (ih (h.step hsteps) hlater)

end Places

/-! ## The brackets that are kept -/

/-- A bracket of one of the three kinds. -/
def isBracket (t : Token) : Bool := t.kind = .punctuation && ["(", ")", "[", "]", "\x7b", "\x7d"].contains t.text

theorem isBracket_eq_false {u : Token} (h : u.kind = .punctuation → Bracket.IsNone u) : isBracket u = false := by
  by_cases hkind : u.kind = .punctuation
  · obtain ⟨hopen, hclose⟩ := h hkind
    rw [isBracket, Bool.and_eq_false_iff]
    refine .inr (Bool.eq_false_iff.mpr fun hmem => ?_)
    have hbrackets : ∀ s ∈ ["(", ")", "[", "]", "\x7b", "\x7d"], Bracket.opened? s ≠ none ∨ Bracket.closed? s ≠ none := by decide
    rcases hbrackets _ (List.contains_iff_mem.mp hmem) with h | h
    · exact h hopen
    · exact h hclose
  · rw [isBracket, decide_eq_false hkind, Bool.false_and]

/-- The brackets that the walk has kept on its way to `e` through the tokens `ts`, without those in blocks that it copied. -/
def keptBrackets (ts : List Token) (e : Eraser) : List Token :=
  e.kept.reverse.filter fun t => isBracket t && !(copied (start ts)).contains t

/-- The brackets that are kept are nested, and the frames are those of the ones that are still open. -/
def Framed (ts : List Token) (e : Eraser) : Prop := ∃ opened, Bracket.behind [] (keptBrackets ts e) = some opened ∧ e.Opened opened

section Invariant

variable {content : List Char} {source : List Token} {e e' : Eraser} {t : Token} {ts : List Token}

/-- What is forgotten again is no bracket. -/
theorem Sheds.keptBrackets_eq {kept : List Token} (h : Sheds e kept) (hshaped : ∀ u ∈ e.kept, u.Shaped ∨ u.kind = .regex)
    (p : Token → Bool) : kept.filter (fun u => isBracket u && p u) = e.kept.filter fun u => isBracket u && p u := by
  have hforgotten {front back : List Token} (hkept : e.kept = front ++ back) (hfront : ∀ u ∈ front, u.kind ≠ .punctuation) :
      back.filter (fun u => isBracket u && p u) = e.kept.filter fun u => isBracket u && p u := by
    have hnone : front.filter (fun u => isBracket u && p u) = [] := by
      refine List.filter_eq_nil_iff.mpr fun u hu => ?_
      rw [isBracket, decide_eq_false (hfront u hu), Bool.false_and, Bool.false_and]
      exact Bool.false_ne_true
    rw [hkept, List.filter_append, hnone, List.nil_append]
  cases h with
  | nothing => rfl
  | blanks =>
    refine hforgotten List.takeWhile_append_dropWhile.symm fun u hu hmark => ?_
    have hblank := List.mem_takeWhile_imp hu
    rw [hmark] at hblank
    cases hblank
  | module =>
    unfold retractExport
    split
    · rename_i hexport
      obtain ⟨u, hu, htext⟩ := Option.map_eq_some_iff.mp hexport
      obtain ⟨us, hus⟩ := List.head?_eq_some_iff.mp hu
      have hkept : e.kept = (e.kept.takeWhile Token.isTrivia ++ [u]) ++ e.keptMeaning.tail := by
        rw [List.append_assoc, List.singleton_append, hus, List.tail_cons, ← hus]
        exact List.takeWhile_append_dropWhile.symm
      refine hforgotten hkept fun v hv hmark => ?_
      rcases List.mem_append.mp hv with htrivia | hword
      · have htrivia := List.mem_takeWhile_imp htrivia
        simp [Token.isTrivia, hmark] at htrivia
      · obtain rfl := List.mem_singleton.mp hword
        rcases hshaped v (hkept ▸ List.mem_append_left _ hv) with hshape | hregex
        · cases (hshape.kind_of_export htext).symm.trans hmark
        · cases hregex.symm.trans hmark
    · rfl

theorem keptBrackets_of_kept {u : Token} (hkept : e'.kept = u :: e.kept) :
    keptBrackets source e' = keptBrackets source e ++ [u].filter fun t => isBracket t && !(copied (start source)).contains t := by
  rw [keptBrackets, keptBrackets, hkept, List.reverse_cons, List.filter_append]

/-- One more bracket is kept, and a frame is opened or closed for it. -/
theorem Framed.bracket {u : Token} (h : Framed source e) (hkept : e'.kept = u :: e.kept) (hkind : u.kind = .punctuation)
    (hmem : u ∉ copied (start source))
    (hturn : (∃ b, u.text = b.opener ∧ e'.frame.bracket = some b ∧ e'.outer = e.frame :: e.outer) ∨
      ∃ b, u.text = b.closer ∧ e.frame.bracket = some b ∧ e.outer = e'.frame :: e'.outer) : Framed source e' := by
  obtain ⟨opened, hbehind, ho⟩ := h
  have hbracket : isBracket u = true := by
    rw [isBracket, decide_eq_true hkind, Bool.true_and]
    rcases hturn with ⟨b, htext, -⟩ | ⟨b, htext, -⟩ <;> rw [htext] <;> cases b <;> decide
  have hone : [u].filter (fun t => isBracket t && !(copied (start source)).contains t) = [u] := by
    simp [hbracket, hmem]
  have hafter : Bracket.behind [] (keptBrackets source e') = Bracket.after opened u := by
    rw [keptBrackets_of_kept hkept, hone, Bracket.behind_append, hbehind, Option.bind_some, Bracket.behind_cons]
    cases Bracket.after opened u <;> rfl
  rcases hturn with ⟨b, htext, hframe, houter⟩ | ⟨b, htext, hframe, houter⟩
  · refine ⟨b :: opened, hafter.trans (Bracket.after_of_opener htext opened), ?_⟩
    rw [Opened, List.map_cons, hframe, houter]
    exact congrArg (some b :: ·) ho
  · rw [Opened, houter, List.map_cons, hframe] at ho
    cases opened with
    | nil => cases (List.cons.inj ho).1
    | cons b' outer =>
      obtain ⟨hb, houter'⟩ := List.cons.inj ho
      obtain rfl := Option.some.inj hb
      exact ⟨outer, hafter.trans (Bracket.after_of_closer htext), houter'⟩

/-- Nothing changes for the brackets. -/
theorem Framed.same (h : Framed source e) (hkept : keptBrackets source e' = keptBrackets source e) (hsame : SameBrackets e e') :
    Framed source e' := by
  obtain ⟨opened, hbehind, ho⟩ := h
  exact ⟨opened, hkept ▸ hbehind, hsame.opened ho⟩

/-- How far the walk has come in the blocks that it copies: those behind it and those in front of it are all of them. -/
def Divides (source : List Token) (e : Eraser) : Prop :=
  ∃ behind, copied (start source) = behind ++ copied e ∧ ∀ u ∈ behind, u ∈ e.passed

/-- The token in front of the walk is in no block, unless a block is copied at it. -/
theorem Divides.notMem (hdivides : Divides source e) (hwhole : Whole content e) (hrest : e.rest = t :: ts) (hs : Steps e e')
    (hcopied : copied e = copied e') : t ∉ copied (start source) := by
  obtain ⟨behind, hall, hpassed⟩ := hdivides
  have hle := hwhole.offset_le_start (hrest ▸ List.mem_cons_self : t ∈ e.rest)
  have hplace : t.start = e.offset := by
    have hbuffer : e.buffer = e.passed.reverse ++ t :: ts := by rw [buffer, hrest]
    exact (hwhole.cuts.placed _ _ _ hbuffer).1
  rw [hall, List.mem_append]
  rintro (hbehind | hahead)
  · have hlt := hwhole.start_lt_offset (hpassed t hbehind)
    omega
  · have hlater := (hwhole.step hs).offset_le_of_mem_copied (hcopied ▸ hahead)
    have hlt := hwhole.offset_lt hs
    omega

/-- Where a block is copied, the brackets in it are left out of account. -/
theorem keptBrackets_of_block (taken : List Token) (hshaped : ∀ u ∈ e.kept, u.Shaped ∨ u.kind = .regex)
    (hkept : Sheds e e'.kept ∨ e'.kept = taken.reverse ++ e.kept) (htaken : ∀ u ∈ taken, u ∈ copied (start source)) :
    keptBrackets source e' = keptBrackets source e := by
  rcases hkept with hsheds | hkept
  · rw [keptBrackets, keptBrackets, List.filter_reverse, List.filter_reverse, hsheds.keptBrackets_eq hshaped]
  · have hnone : taken.filter (fun t => isBracket t && !(copied (start source)).contains t) = [] :=
      List.filter_eq_nil_iff.mpr fun u hu => by simp [htaken u hu]
    rw [keptBrackets, keptBrackets, hkept, List.reverse_append, List.reverse_reverse, List.filter_append, hnone, List.append_nil]

theorem Framed.step (h : Framed source e) (hdivides : Divides source e) (hwhole : Whole content e) (hs : Steps e e') :
    Framed source e' ∧ Divides source e' := by
  have hshaped : ∀ u ∈ e.kept, u.Shaped ∨ u.kind = .regex := fun u hu =>
    hwhole.shaped (List.mem_append_left _ (List.mem_reverse.mpr (hwhole.kept.subset hu)))
  cases hs with
  | @intro t ts next hrest hstep =>
    have hs : Steps e next.1 := .intro hrest hstep
    have hcopied := copied_of_step hrest hstep
    obtain ⟨behind, hall, hpassed⟩ := id hdivides
    cases hmodule : e.copiesModule t ts with
    | true =>
      rw [hmodule, if_pos rfl] at hcopied
      have hkind : t.kind = .identifier := by
        simp only [copiesModule, Bool.and_eq_true, decide_eq_true_eq] at hmodule
        exact hmodule.1.1.1
      rw [step_of_identifier hkind] at hstep
      obtain ⟨taken, htaken, hpassed', hkept⟩ := moves_onIdentifier hkind hstep
      have htake : (t :: ts).take ((t :: ts).length - next.1.rest.length) = taken := by
        have hlength : (t :: ts).length - next.1.rest.length = taken.length := by simp [congrArg List.length htaken]
        rw [hlength, congrArg (List.take taken.length) htaken, List.take_left]
      rw [htake] at hcopied
      have hblock : ∀ u ∈ taken, u ∈ copied (start source) := fun u hu => by
        rw [hall, hcopied]
        exact List.mem_append_right _ (List.mem_append_left _ hu)
      refine ⟨h.same (keptBrackets_of_block _ hshaped (hkept.imp_right And.left) hblock) (sameBrackets_onIdentifier hstep),
        behind ++ taken, by rw [hall, hcopied, List.append_assoc], fun u hu => ?_⟩
      rw [hpassed']
      rcases List.mem_append.mp hu with hu | hu
      · exact List.mem_append_right _ (hpassed u hu)
      · exact List.mem_append_left _ (List.mem_reverse.mpr hu)
    | false =>
      rw [hmodule, if_neg Bool.false_ne_true, List.nil_append] at hcopied
      have hlater : Divides source next.1 := by
        refine ⟨behind, hcopied ▸ hall, fun u hu => ?_⟩
        rcases moves_or_splices hs with ⟨taken, -, hpassed', -⟩ | ⟨_, _, _, -, -, -, -, hpassed', -⟩ <;> rw [hpassed']
        · exact List.mem_append_right _ (hpassed u hu)
        · exact List.mem_cons_of_mem _ (hpassed u hu)
      refine ⟨?_, hlater⟩
      cases keeps_of_step hrest hmodule hstep with
      | nothing hsheds hsame => exact h.same (keptBrackets_of_block [] hshaped (.inl hsheds) nofun) hsame
      | @plain u hkept hnone hsame =>
        refine h.same ?_ hsame
        rw [keptBrackets_of_kept hkept, List.filter_cons_of_neg (by simp [isBracket_eq_false hnone])]
        exact List.append_nil _
      | @opens u us b hkept hrest' hkind htext hframe houter =>
        obtain ⟨rfl, rfl⟩ := List.cons.inj (hrest.symm.trans hrest')
        exact h.bracket hkept hkind (hdivides.notMem hwhole hrest hs hcopied) (.inl ⟨b, htext, hframe, houter⟩)
      | @closes u us b hkept hrest' hkind htext hframe houter =>
        obtain ⟨rfl, rfl⟩ := List.cons.inj (hrest.symm.trans hrest')
        exact h.bracket hkept hkind (hdivides.notMem hwhole hrest hs hcopied) (.inr ⟨b, htext, hframe, houter⟩)

theorem framed_of_reaches (hlex : tokenize content 0 .first = .ok source) (h : Reaches (start source) e) : Framed source e := by
  have hstep {e e' : Eraser} (h : Whole content e ∧ Framed source e ∧ Divides source e) (hs : Steps e e') :
      Whole content e' ∧ Framed source e' ∧ Divides source e' := by
    obtain ⟨hwhole, hframed, hdivides⟩ := h
    exact ⟨hwhole.step hs, hframed.step hdivides hwhole hs⟩
  have hstart : Whole content (start source) ∧ Framed source (start source) ∧ Divides source (start source) :=
    ⟨whole_start hlex, ⟨[], rfl, rfl⟩, [], rfl, nofun⟩
  exact (h.preserves hstep hstart).2.1

end Invariant

end Eraser

open Eraser

/-- Wherever the walk gets, the brackets that it has kept are nested as far as they go, and those that are still open are the brackets of
its frames. So the brackets of a source that is erased are nested, blocks that are copied aside. -/
theorem kept_brackets_nested (content : String) :
    (∀ ts e, tokenize content.toList 0 .first = .ok ts → Reaches (start ts) e →
      ∃ opened, Bracket.behind [] (keptBrackets ts e) = some opened ∧
        (e.frame :: e.outer).map (·.bracket) = opened.map some ++ [none]) ∧
    ∀ r, erase content = .ok r →
      ∃ ts e, tokenize content.toList 0 .first = .ok ts ∧ walk (start ts) = .ok e ∧ r.code.toList = sourceText e.kept.reverse ∧
        Balanced (keptBrackets ts e) := by
  refine ⟨fun ts e hlex hreach => framed_of_reaches hlex hreach, fun r herase => ?_⟩
  obtain ⟨ts, e, hlex, hwalk, rfl⟩ := walk_of_erase herase
  obtain ⟨hreach, -, hnone⟩ := reaches_of_walk hwalk
  obtain ⟨opened, hbehind, hframes⟩ := framed_of_reaches hlex hreach
  refine ⟨ts, e, hlex, hwalk, toList_output e, (balanced_iff _).mpr ?_⟩
  cases opened with
  | nil => exact hbehind
  | cons b opened =>
    rw [Opened, List.map_cons, hnone] at hframes
    cases (List.cons.inj hframes).1

/-- The brackets of the clause are copied as a block, those of the cast are skipped, and those of the call are kept. -/
theorem kept_brackets_nested_call :
    erase "export {a};f(a as (A))" = .ok ⟨"export {a};f(a)", []⟩ ∧
      ∃ ts e, tokenize "export {a};f(a as (A))".toList 0 .first = .ok ts ∧ walk (start ts) = .ok e ∧
        "export {a};f(a)".toList = sourceText e.kept.reverse ∧ Balanced (keptBrackets ts e) ∧
        (keptBrackets ts e).map (·.start) = [12, 21] ∧
        ∃ opened, Bracket.behind [] (keptBrackets ts e) = some opened ∧
          (e.frame :: e.outer).map (·.bracket) = opened.map some ++ [none] := by
  have herase : erase "export {a};f(a as (A))" = .ok ⟨"export {a};f(a)", []⟩ := by cbv
  obtain ⟨ts, e, hlex, hwalk, hcode, hbalanced⟩ := (kept_brackets_nested _).2 _ herase
  have hplaces : (tokenize "export {a};f(a as (A))".toList 0 .first).toOption.bind (fun ts =>
      (walk (start ts)).toOption.map fun e => (keptBrackets ts e).map (·.start)) = some [12, 21] := by cbv
  simp only [hlex, hwalk, Except.toOption, Option.bind_some, Option.map_some, Option.some.injEq] at hplaces
  exact ⟨herase, ts, e, hlex, hwalk, hcode, hbalanced, hplaces,
    (kept_brackets_nested _).1 ts e hlex (reaches_of_walk hwalk).1⟩

end ScriptLoader.Syntax
