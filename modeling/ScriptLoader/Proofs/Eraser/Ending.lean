import Mathlib.Data.List.Chain
import ScriptLoader.Error
import ScriptLoader.Proofs.Eraser.Brackets
import ScriptLoader.Proofs.Eraser.Subsequence
import ScriptLoader.Proofs.Lexer.Places

/-!
# Every walk ends

Each step of the walk gets further in the source, and so does every reader that skips a construct for it, however the source goes on or
where it breaks off. So the walk makes no more steps than the source has characters. It ends at the end of the source or at a refusal,
which shows at a token, or at a character that begins none (`erase_ends`).
-/

namespace ScriptLoader.Syntax

/-! ## Where tokens are refused -/

/-- The refusal shows at one of these tokens, or, without a place, at the last token of the source. -/
structure Refusal.ShownIn (r : Refusal) (ts : List Token) : Prop where
  fault : ∀ c, r.fault ≠ .strayCharacter c
  place : ∀ p, r.place = some p → ∃ t ∈ ts, t.position = p

/-- Where the tokens are refused, that shows at one of them or at the last token of the source. -/
def RefusedIn {α : Type} (ts : List Token) (x : Except Refusal α) : Prop := ∀ r, x = .error r → r.ShownIn ts

namespace RefusedIn

variable {α β : Type} {us ts : List Token} {x : Except Refusal α}

theorem ok (ts : List Token) (a : α) : RefusedIn ts (.ok a) := nofun

theorem widen (h : RefusedIn us x) (hsub : us <:+ ts) : RefusedIn ts x := by
  intro r hr
  obtain ⟨hfault, hplace⟩ := h r hr
  refine ⟨hfault, fun p hp => ?_⟩
  obtain ⟨t, ht, rfl⟩ := hplace p hp
  exact ⟨t, hsub.mem ht, rfl⟩

theorem map (h : RefusedIn ts x) (f : α → β) : RefusedIn ts (x.map f) := by
  intro r hr
  cases x with
  | ok a => cases hr
  | error f => exact h r (congrArg _ (Except.error.inj hr))

/-- A refusal that is passed on. -/
theorem pass (h : RefusedIn ts x) {r : Refusal} (hr : x = .error r) : RefusedIn ts (.error r : Except Refusal β) := by
  rintro r' hr'
  obtain rfl := Except.error.inj hr'
  exact h r hr

theorem refuseAt {fault : Fault} (hfault : ∀ c, fault ≠ .strayCharacter c) (hsub : us <:+ ts) :
    RefusedIn ts (Syntax.refuseAt fault us : Except Refusal α) := by
  rintro r hr
  obtain rfl := Except.error.inj hr
  refine ⟨hfault, fun p hp => ?_⟩
  obtain ⟨t, ht, rfl⟩ := Option.map_eq_some_iff.mp hp
  exact ⟨t, hsub.mem (List.mem_of_mem_head? ht), rfl⟩

theorem refuseAtEnd {fault : Fault} (hfault : ∀ c, fault ≠ .strayCharacter c) :
    RefusedIn ts (Syntax.refuseAtEnd fault : Except Refusal α) := by
  rintro r hr
  obtain rfl := Except.error.inj hr
  exact ⟨hfault, by simp⟩

end RefusedIn

/-! ## Brackets -/

theorem refusedIn_skipPast (b : Bracket) (inner : Nat) (ts : List Token) : RefusedIn ts (skipPast b inner ts) := by
  induction ts generalizing inner with
  | nil => exact .refuseAtEnd (by simp)
  | cons t ts ih =>
    have hmore (inner : Nat) : RefusedIn (t :: ts) ((skipPast b inner ts).map (·.widen (List.suffix_cons t ts))) :=
      ((ih inner).widen (List.suffix_cons t ts)).map _
    unfold skipPast
    split
    · exact hmore _
    split
    · cases inner with
      | zero => exact .ok _ _
      | succ n => exact hmore n
    · exact hmore _

theorem refusedIn_skipBracket (b : Bracket) (ts : List Token) : RefusedIn ts (skipBracket b ts) := by
  cases ts with
  | nil => exact .refuseAtEnd (by simp)
  | cons t ts => exact ((refusedIn_skipPast b 0 ts).widen (List.suffix_cons t ts)).map _

theorem refusedIn_skipAngle (ts : List Token) : RefusedIn ts (skipAngle ts) := by
  unfold skipAngle
  split
  · exact .ok _ _
  · exact .refuseAt (by simp) (List.suffix_refl ts)

/-! ## Types -/

theorem refusedIn_skipSuffixes (ts : List Token) : RefusedIn ts (skipSuffixes ts) := by
  fun_induction skipSuffixes ts with
  | case1 ts _ r _ ih => exact (ih.widen (r.suffix.trans (significant_suffix ts))).map _
  | case2 ts _ f hf => exact ((refusedIn_skipBracket .square _).widen (significant_suffix ts)).pass hf
  | case3 ts => exact .ok _ _

/-- So it is for all readers of types. -/
structure TypesRefusedIn (ts : List Token) : Prop where
  type : RefusedIn ts (skipType ts)
  more : RefusedIn ts (skipMore ts)
  operand : RefusedIn ts (skipOperand ts)
  simple : RefusedIn ts (skipSimple ts)

section Types

variable {ts : List Token} (ih : ∀ us, us <:+ ts → us.length < ts.length → TypesRefusedIn us)

include ih

theorem refusedIn_skipSimple_of_shorter : RefusedIn ts (skipSimple ts) := by
  have hsuffixes (r : Tail ts) : RefusedIn ts ((skipSuffixes r.tokens).map r.andThen) :=
    ((refusedIn_skipSuffixes r.tokens).widen r.suffix).map _
  -- behind an arrow or the word `is` a type follows
  have htype {r : Tail ts} {word : Token} {vs : List Token} (h : significant r.tokens = word :: vs) : RefusedIn ts (skipType vs) := by
    have hsub : word :: vs <:+ ts := h ▸ (significant_suffix r.tokens).trans r.suffix
    exact (ih vs ((List.suffix_cons word vs).trans hsub) hsub.length_le).type.widen ((List.suffix_cons word vs).trans hsub)
  unfold skipSimple
  split
  · exact .refuseAt (by simp) (List.suffix_refl [])
  rename_i t us
  split
  · split
    · rename_i hf
      exact (refusedIn_skipBracket _ _).pass hf
    · split
      · exact hsuffixes _
      · rename_i harrow
        split
        · exact (htype harrow).map _
        · exact hsuffixes _
  split
  · split
    · rename_i hf
      exact (refusedIn_skipBracket _ _).pass hf
    · exact hsuffixes _
  split
  · split
    · rename_i hf
      exact (refusedIn_skipBracket _ _).pass hf
    · exact hsuffixes _
  split
  · exact ((refusedIn_skipSuffixes us).widen (List.suffix_cons t us)).map _
  split
  · exact .ok _ _
  split
  · simp only
    split
    · rename_i f hf
      split at hf
      · refine RefusedIn.pass (((refusedIn_skipAngle _).widen ?_).map _) hf
        exact (significant_suffix _).trans ((skipDotted us).suffix.trans (List.suffix_cons t us))
      · cases hf
    · split
      · exact hsuffixes _
      · rename_i hword
        split
        · exact (htype hword).map _
        · exact hsuffixes _
  · exact .refuseAt (by simp) (List.suffix_refl _)

theorem refusedIn_skipOperand_of_shorter : RefusedIn ts (skipOperand ts) := by
  unfold skipOperand
  split
  · exact .refuseAt (by simp) (List.suffix_refl [])
  rename_i t us
  have hnext : significant us <:+ t :: us := (significant_suffix us).trans (List.suffix_cons t us)
  simp only
  split
  · exact ((ih _ hnext (Nat.lt_succ_of_le (significant_suffix us).length_le)).operand.widen hnext).map _
  split
  · split
    · rename_i hf
      exact (refusedIn_skipAngle _).pass hf
    · rename_i r _
      exact ((ih _ r.significant.suffix r.significant.shorter).simple.widen r.significant.suffix).map _
  · exact refusedIn_skipSimple_of_shorter ih

theorem refusedIn_skipType_of_shorter : RefusedIn ts (skipType ts) := by
  have hoperand : RefusedIn (firstOperand ts).tokens (skipOperand (firstOperand ts).tokens) :=
    refusedIn_skipOperand_of_shorter fun us hsub hlt =>
      ih us (hsub.trans (firstOperand ts).suffix) (Nat.lt_of_lt_of_le hlt (firstOperand ts).length_le)
  unfold skipType
  split
  · rename_i hf
    exact (hoperand.widen (firstOperand ts).suffix).pass hf
  · rename_i r _
    have hsub : r.tokens <:+ ts := r.suffix.trans (firstOperand ts).suffix
    exact ((ih _ hsub (Nat.lt_of_lt_of_le r.shorter (firstOperand ts).length_le)).more.widen hsub).map _

theorem refusedIn_skipMore_of_shorter : RefusedIn ts (skipMore ts) := by
  have hlater {us : List Token} (r : Tail us) (hsub : us <:+ ts) : TypesRefusedIn r.tokens :=
    ih _ (r.suffix.trans hsub) (Nat.lt_of_lt_of_le r.shorter hsub.length_le)
  unfold skipMore
  split
  · exact .ok _ _
  rename_i t us hs
  have hts : t :: us <:+ ts := hs ▸ significant_suffix ts
  have hafter := (afterToken t us).suffix.trans hts
  split
  · split
    · rename_i hf
      exact ((hlater (afterToken t us) hts).operand.widen hafter).pass hf
    · rename_i r _
      exact ((hlater r hafter).more.widen (r.suffix.trans hafter)).map _
  split
  · split
    · rename_i hf
      exact ((hlater (afterToken t us) hts).operand.widen hafter).pass hf
    rename_i r _
    split
    · exact .ok _ _
    rename_i q vs hq
    have hvs : q :: vs <:+ ts := hq ▸ (significant_suffix r.tokens).trans (r.suffix.trans hafter)
    split
    · split
      · rename_i hf
        exact ((hlater (.ofCons q vs) hvs).type.widen ((List.suffix_cons q vs).trans hvs)).pass hf
      rename_i r₁ _
      have hr₁ := r₁.suffix.trans ((List.suffix_cons q vs).trans hvs)
      split
      · exact .refuseAt (by simp) (List.nil_suffix)
      rename_i c ws hc
      have hws : c :: ws <:+ ts := hc ▸ (significant_suffix r₁.tokens).trans hr₁
      split
      · split
        · rename_i hf
          exact ((hlater (.ofCons c ws) hws).type.widen ((List.suffix_cons c ws).trans hws)).pass hf
        · rename_i r₂ _
          have hr₂ := r₂.suffix.trans ((List.suffix_cons c ws).trans hws)
          exact ((hlater r₂ ((List.suffix_cons c ws).trans hws)).more.widen hr₂).map _
      · exact .refuseAt (by simp) hws
    · exact .ok _ _
  · exact .ok _ _

end Types

theorem typesRefusedIn (ts : List Token) : TypesRefusedIn ts := by
  induction hn : ts.length using Nat.strongRecOn generalizing ts with
  | ind n ih =>
    have hless (us : List Token) (_ : us <:+ ts) (hlt : us.length < ts.length) : TypesRefusedIn us := ih us.length (hn ▸ hlt) us rfl
    exact ⟨refusedIn_skipType_of_shorter hless, refusedIn_skipMore_of_shorter hless, refusedIn_skipOperand_of_shorter hless,
      refusedIn_skipSimple_of_shorter hless⟩

theorem refusedIn_skipType (ts : List Token) : RefusedIn ts (skipType ts) := (typesRefusedIn ts).type

/-! ## Declarations -/

theorem refusedIn_skipStatement (depth : Int) (ts : List Token) : RefusedIn ts (skipStatement depth ts) := by
  induction ts generalizing depth with
  | nil => exact .ok _ _
  | cons t ts ih =>
    have hmore (depth : Int) : RefusedIn (t :: ts) ((skipStatement depth ts).map (·.widen (List.suffix_cons t ts))) :=
      ((ih depth).widen (List.suffix_cons t ts)).map _
    unfold skipStatement
    simp only
    split
    · exact .ok _ _
    split
    · exact (refusedIn_skipBracket .curly (t :: ts)).map _
    split
    · exact .ok _ _
    split
    · exact hmore _
    split
    · exact hmore _
    · exact hmore _

theorem refusedIn_skipInterface (ts : List Token) : RefusedIn ts (skipInterface ts) := by
  fun_induction skipInterface ts with
  | case1 => exact .refuseAtEnd (by simp)
  | case2 t us _ r _ ih => exact (ih.widen r.suffix).map _
  | case3 t us _ f hf => exact (refusedIn_skipAngle (t :: us)).pass hf
  | case4 t us => exact (refusedIn_skipBracket .curly (t :: us)).map _
  | case5 t us _ _ ih => exact (ih.widen (List.suffix_cons t us)).map _

theorem refusedIn_skipAliased (ts : List Token) : RefusedIn ts (skipAliased ts) := by
  unfold skipAliased
  split
  · exact .refuseAt (by simp) (List.suffix_refl [])
  rename_i t us
  split
  · exact ((refusedIn_skipType us).widen (List.suffix_cons t us)).map _
  · exact .refuseAt (by simp) (List.suffix_refl _)

theorem refusedIn_skipTypeAlias (ts : List Token) : RefusedIn ts (skipTypeAlias ts) := by
  have hstart : (Rest.whole ts).significant.tokens <:+ ts := (Rest.whole ts).significant.suffix
  unfold skipTypeAlias
  simp only
  split
  · split
    · rename_i r _
      exact ((refusedIn_skipAliased _).widen (r.significant.suffix.trans hstart)).map _
    · rename_i hf
      exact ((refusedIn_skipAngle _).widen hstart).pass hf
  · exact ((refusedIn_skipAliased _).widen hstart).map _

namespace Eraser

theorem refusedIn_skipImplemented (ts : List Token) : RefusedIn ts (skipImplemented ts) := by
  induction hn : ts.length using Nat.strongRecOn generalizing ts with
  | ind n ih =>
    rw [skipImplemented]
    split
    · rename_i hf
      exact (refusedIn_skipType ts).pass hf
    rename_i r _
    split
    · rename_i comma us hcomma
      have hsub : comma :: us <:+ ts := hcomma ▸ (significant_suffix r.tokens).trans r.suffix
      split
      · exact ((ih us.length (hn ▸ hsub.length_le) us rfl).widen ((List.suffix_cons comma us).trans hsub)).map _
      · exact .ok _ _
    · exact .ok _ _

theorem refusedIn_skipReceiver (ts : List Token) : RefusedIn ts (skipReceiver ts) :=
  ((refusedIn_skipType _).widen (Rest.whole ts).significant.tail.suffix).map _

theorem refusedIn_copyImport (e : Eraser) (ts : List Token) : RefusedIn ts (copyImport e ts) := by
  induction ts generalizing e with
  | nil => exact .refuseAtEnd (by simp)
  | cons t ts ih =>
    unfold copyImport
    simp only
    split
    · exact .refuseAt (by simp) (List.suffix_refl _)
    split
    · exact .ok _ _
    split
    · exact .ok _ _
    · rename_i hf
      exact ((ih _).widen (List.suffix_cons t ts)).pass hf

theorem refusedIn_skipExportClause (ts : List Token) : RefusedIn ts (skipExportClause ts) := by
  unfold skipExportClause
  simp only
  split
  · exact ((refusedIn_skipBracket .curly _).widen (Rest.whole ts).significant.suffix).map _
  · split <;> exact .ok _ _

theorem refusedIn_copyExport (e : Eraser) (t : Token) (ts : List Token) : RefusedIn (t :: ts) (copyExport e t ts) := by
  unfold copyExport
  split
  · rename_i hf
    exact ((refusedIn_skipExportClause ts).widen (List.suffix_cons t ts)).pass hf
  · simp only
    split
    · split <;> exact .ok _ _
    · exact .ok _ _

/-! ## Steps -/

section Steps

variable (e : Eraser) (t : Token) (ts : List Token)

theorem refusedIn_onStatement : RefusedIn (t :: ts) (onStatement e t ts) := by
  have htail {α : Type} {x : Except Refusal α} (h : RefusedIn ts x) : RefusedIn (t :: ts) x := h.widen (List.suffix_cons t ts)
  unfold onStatement
  simp only
  split
  · exact (htail (refusedIn_skipInterface ts)).map _
  split
  · exact (htail ((refusedIn_skipTypeAlias _).widen (Rest.whole ts).significant.tail.suffix)).map _
  split
  · exact (htail (refusedIn_skipStatement 0 ts)).map _
  split
  · exact .refuseAt (by simp) (List.suffix_refl _)
  split
  · exact .refuseAt (by simp) (List.suffix_refl _)
  split
  · split
    · exact .ok _ _
    · exact (htail (refusedIn_copyImport _ ts)).map _
  split
  · exact .ok _ _
  split
  · exact (refusedIn_copyExport e t ts).map _
  · exact .ok _ _

theorem refusedIn_onWord : RefusedIn (t :: ts) (onWord e t ts) := by
  have htail {α : Type} {x : Except Refusal α} (h : RefusedIn ts x) : RefusedIn (t :: ts) x := h.widen (List.suffix_cons t ts)
  unfold onWord
  simp only
  split
  · exact .refuseAt (by simp) (List.suffix_refl _)
  split
  · exact .ok _ _
  split
  · exact (htail (refusedIn_skipType ts)).map _
  split
  · exact (htail (refusedIn_skipImplemented ts)).map _
  · exact .ok _ _

theorem refusedIn_onIdentifier : RefusedIn (t :: ts) (onIdentifier e t ts) := by
  unfold onIdentifier
  split
  · exact .ok _ _
  split
  · exact ((refusedIn_skipReceiver ts).widen (List.suffix_cons t ts)).map _
  split
  · split
    · rename_i hf
      exact (refusedIn_onStatement e t ts).pass hf
    · exact .ok _ _
    · exact refusedIn_onWord e t ts
  · exact refusedIn_onWord e t ts

theorem refusedIn_onMark : RefusedIn (t :: ts) (onMark e t ts) := by
  unfold onMark
  split
  · split <;> exact .ok _ _
  split
  · exact .ok _ _
  split
  · split
    · exact ((refusedIn_skipType ts).widen (List.suffix_cons t ts)).map _
    · exact .ok _ _
  split
  · split
    · split <;> exact .ok _ _
    · exact .ok _ _
  split
  · exact .ok _ _
  · unfold onClosing
    split
    · split
      · exact .ok _ _
      · exact .refuseAt (by simp) (List.suffix_refl _)
    · exact .refuseAt (by simp) (List.suffix_refl _)
  · split <;> exact .ok _ _

end Steps

/-- A regular expression begins at the first token, and the text behind it cannot be lexed up to its end. -/
def StraysBehindRegex (t : Token) (ts : List Token) (r : Refusal) : Prop :=
  ∃ n s, regexLength (sourceText (t :: ts)) = some n ∧
    lexFrom ⟨t.position.line, t.position.column + ((sourceText (t :: ts)).take n).length⟩
      (t.start + ((sourceText (t :: ts)).take n).length) ((sourceText (t :: ts)).drop n) = .error s ∧
    r = ⟨.strayCharacter s.char, some s.position⟩

theorem refused_of_step {e : Eraser} {t : Token} {ts : List Token} {r : Refusal} (h : step e t ts = .error r) :
    r.ShownIn (t :: ts) ∨ StraysBehindRegex t ts r := by
  unfold step at h
  split at h
  · cases h
  split at h
  · exact .inl (refusedIn_onIdentifier e t ts r h)
  split at h
  · unfold onPunctuation at h
    split at h
    · split at h
      · rename_i n hn
        unfold onRegex at h
        simp only at h
        split at h
        · rename_i s hs
          exact .inr ⟨n, s, hn, hs, (Except.error.inj h).symm⟩
        · cases h
      · exact .inl (refusedIn_onMark e t ts r h)
    · exact .inl (refusedIn_onMark e t ts r h)
  · cases h

/-! ## Further in the source -/

/-- The reader gets further in the source than these tokens begin, or it refuses them. -/
structure Advances {us : List Token} (ts : List Token) (x : Except Refusal (Rest us)) : Prop where
  refused : RefusedIn ts x
  further : ∀ r, x = .ok r → (sourceText r.tokens).length < (sourceText ts).length

/-- Every reader gets further: those that begin at the first token, and those that go on behind it. -/
structure ReadersAdvance (t : Token) (ts : List Token) : Prop where
  bracket : ∀ b, Advances (t :: ts) ((skipBracket b (t :: ts)).map Tail.toRest)
  angle : Advances (t :: ts) ((skipAngle (t :: ts)).map Tail.toRest)
  type : Advances (t :: ts) ((skipType (t :: ts)).map Tail.toRest)
  operand : Advances (t :: ts) ((skipOperand (t :: ts)).map Tail.toRest)
  simple : Advances (t :: ts) ((skipSimple (t :: ts)).map Tail.toRest)
  implemented : Advances (t :: ts) ((skipImplemented (t :: ts)).map Tail.toRest)
  receiver : Advances (t :: ts) ((skipReceiver (t :: ts)).map Tail.toRest)
  past : ∀ b inner, Advances (t :: ts) (skipPast b inner ts)
  suffixes : Advances (t :: ts) (skipSuffixes ts)
  dotted : Advances (t :: ts) (.ok (skipDotted ts))
  more : Advances (t :: ts) (skipMore ts)
  statement : ∀ depth, Advances (t :: ts) (skipStatement depth ts)
  moduleStatement : ∀ depth, Advances (t :: ts) (.ok (skipModuleStatement depth ts))
  interface : Advances (t :: ts) (skipInterface ts)
  aliased : Advances (t :: ts) (skipAliased ts)
  typeAlias : Advances (t :: ts) (skipTypeAlias ts)
  exportClause : Advances (t :: ts) (skipExportClause ts)

section Readers

variable {t : Token} {ts : List Token}

theorem length_sourceText_lt {us : List Token} (hne : ∀ u ∈ ts, 0 < u.text.toList.length) (hsub : us <:+ ts) (hlt : us.length < ts.length) :
    (sourceText us).length < (sourceText ts).length := by
  obtain ⟨skipped, rfl⟩ := hsub
  cases skipped with
  | nil => exact absurd hlt (Nat.lt_irrefl _)
  | cons u skipped =>
    have hu := hne u List.mem_cons_self
    simp only [List.cons_append, sourceText_cons, sourceText_append, List.length_append]
    omega

theorem readersAdvance (hne : ∀ u ∈ t :: ts, 0 < u.text.toList.length) : ReadersAdvance t ts := by
  have hat {x : Except Refusal (Tail (t :: ts))} (h : RefusedIn (t :: ts) x) : Advances (t :: ts) (x.map Tail.toRest) := by
    refine ⟨h.map _, fun r hr => ?_⟩
    obtain ⟨r, -, rfl⟩ := ok_of_map hr
    exact length_sourceText_lt hne r.suffix r.shorter
  have hbehind {x : Except Refusal (Rest ts)} (h : RefusedIn ts x) : Advances (t :: ts) x :=
    ⟨h.widen (List.suffix_cons t ts), fun r _ =>
      length_sourceText_lt hne (r.suffix.trans (List.suffix_cons t ts)) (Nat.lt_succ_of_le r.length_le)⟩
  have htypes := typesRefusedIn (t :: ts)
  exact {
    bracket := fun b => hat (refusedIn_skipBracket b _)
    angle := hat (refusedIn_skipAngle _)
    type := hat htypes.type
    operand := hat htypes.operand
    simple := hat htypes.simple
    implemented := hat (refusedIn_skipImplemented _)
    receiver := hat (refusedIn_skipReceiver _)
    past := fun b inner => hbehind (refusedIn_skipPast b inner ts)
    suffixes := hbehind (refusedIn_skipSuffixes ts)
    dotted := hbehind (.ok ts _)
    more := hbehind (typesRefusedIn ts).more
    statement := fun depth => hbehind (refusedIn_skipStatement depth ts)
    moduleStatement := fun depth => hbehind (.ok ts _)
    interface := hbehind (refusedIn_skipInterface ts)
    aliased := hbehind (refusedIn_skipAliased ts)
    typeAlias := hbehind (refusedIn_skipTypeAlias ts)
    exportClause := hbehind (refusedIn_skipExportClause ts) }

end Readers

/-- How many characters of the source the walk has passed. -/
def offset (e : Eraser) : Nat := (sourceText e.passed.reverse).length

section Offsets

variable {content : List Char} {e e' : Eraser}

theorem Whole.offset_add (h : Whole content e) : e.offset + (sourceText e.rest).length = content.length := by
  rw [← h.text, buffer, sourceText_append, List.length_append, offset]

theorem Whole.pos_of_mem (h : Whole content e) {t : Token} (ht : t ∈ e.buffer) : 0 < t.text.toList.length := by
  obtain ⟨front, back, hbuffer⟩ := List.append_of_mem ht
  exact (h.cuts.placed front t back hbuffer).2.2.ne_nil

theorem weight_eq_length {ts : List Token} (hne : ∀ u ∈ ts, 0 < u.text.toList.length) : weight ts = (sourceText ts).length := by
  induction ts with
  | nil => rfl
  | cons t ts ih =>
    obtain ⟨ht, hts⟩ := List.forall_mem_cons.mp hne
    rw [weight_cons, ih hts, Token.width, Nat.max_eq_right ht, sourceText_cons, List.length_append]

theorem Steps.weight_lt (h : Steps e e') : weight e'.rest < weight e.rest := by
  cases h with
  | @intro t ts next hrest _ =>
    rw [hrest]
    exact next.2

/-- A step gets further in the source, also where it puts a regular expression together. -/
theorem Whole.offset_lt (h : Whole content e) (hs : Steps e e') : e.offset < e'.offset := by
  have h' := h.step hs
  have hlt := hs.weight_lt
  rw [weight_eq_length fun u hu => h.pos_of_mem (List.mem_append_right _ hu),
    weight_eq_length fun u hu => h'.pos_of_mem (List.mem_append_right _ hu)] at hlt
  have hsum := h.offset_add
  have hsum' := h'.offset_add
  omega

/-- The walk makes no more steps than there are characters in front of it. -/
theorem Whole.length_le (h : Whole content e) {es : List Eraser} (hsteps : (e :: es).IsChain Steps) :
    e.offset + es.length ≤ content.length := by
  induction es generalizing e with
  | nil =>
    have hsum := h.offset_add
    simp only [List.length_nil]
    omega
  | cons e' es ih =>
    obtain ⟨hs, hmore⟩ := List.isChain_cons_cons.mp hsteps
    have hlt := h.offset_lt hs
    have hle := ih (h.step hs) hmore
    simp only [List.length_cons]
    omega

end Offsets

/-! ## Where a walk ends -/

/-- What stands in the source where it is refused for the fault: a character that begins no token, or a token. -/
inductive ShowsAt (content : List Char) : Fault → Position → Prop where
  | character {before after : List Char} {c : Char} (hcontent : content = before ++ c :: after) (hnone : lexemeLength (c :: after) = none) :
      ShowsAt content (.strayCharacter c) (placeBehind before)
  | token {fault : Fault} {front back : List Token} {t : Token} (hcuts : Cuts content (front ++ t :: back))
      (hfault : ∀ c, fault ≠ .strayCharacter c) : ShowsAt content fault (placeBehind (sourceText front))

theorem exists_of_walk_error {e : Eraser} {r : Refusal} (h : walk e = .error r) :
    ∃ e', Reaches e e' ∧
      ((∃ b, e'.rest = [] ∧ e'.frame.bracket = some b ∧ r = e'.locate ⟨.unmatchedBracket b.opener, none⟩) ∨
        ∃ t ts r', e'.rest = t :: ts ∧ step e' t ts = .error r' ∧ r = e'.locate r') := by
  fun_induction walk e with
  | case1 e hrest =>
    refine ⟨e, .refl e, .inl ?_⟩
    unfold finish at h
    split at h
    · rename_i b hb
      exact ⟨b, hrest, hb, (Except.error.inj h).symm⟩
    · cases h
  | case2 e t ts hrest r' hr' => exact ⟨e, .refl e, .inr ⟨t, ts, r', hrest, hr', (Except.error.inj h).symm⟩⟩
  | case3 e t ts hrest e₁ hs _ ih =>
    obtain ⟨e', hrun, hend⟩ := ih h
    exact ⟨e', .next (.intro hrest hs) hrun, hend⟩

section Ending

variable {content : List Char} {e : Eraser} {r : Refusal}

theorem Whole.showsAt (h : Whole content e) {t : Token} (ht : t ∈ e.buffer) {fault : Fault} (hfault : ∀ c, fault ≠ .strayCharacter c) :
    ShowsAt content fault t.position := by
  obtain ⟨front, back, hbuffer⟩ := List.append_of_mem ht
  have hcuts := h.cuts
  rw [(hcuts.placed front t back hbuffer).2.1, advance_first]
  exact .token (hbuffer ▸ hcuts) hfault

/-- A refusal of the tokens in front of the walk, or of the end of the source, is placed at a token. -/
theorem Whole.locate (h : Whole content e) (hne : e.buffer ≠ []) (hr : r.ShownIn e.rest) :
    ∃ p, (e.locate r) = ⟨r.fault, some p⟩ ∧ ShowsAt content r.fault p := by
  unfold Eraser.locate
  split
  · rename_i p hp
    obtain ⟨t, ht, rfl⟩ := hr.place p hp
    exact ⟨_, by rw [← hp], h.showsAt (List.mem_append_right _ ht) hr.fault⟩
  · obtain ⟨t, hlast, ht⟩ : ∃ t, e.rest.getLast?.or e.passed.head? = some t ∧ t ∈ e.buffer := by
      cases hrest : e.rest.getLast? with
      | some t => exact ⟨t, rfl, List.mem_append_right _ (List.mem_of_getLast? hrest)⟩
      | none =>
        have hnil : e.rest = [] := List.getLast?_eq_none_iff.mp hrest
        rw [buffer, hnil, List.append_nil, Ne, List.reverse_eq_nil_iff] at hne
        obtain ⟨t, ts, hpassed⟩ := List.exists_cons_of_ne_nil hne
        refine ⟨t, by rw [hpassed]; rfl, List.mem_append_left _ ?_⟩
        rw [hpassed]
        exact List.mem_reverse.mpr List.mem_cons_self
    exact ⟨t.position, by rw [hlast]; rfl, h.showsAt ht hr.fault⟩

/-- Behind a regular expression, too, the character that begins no token is where the refusal says. -/
theorem Whole.stray (h : Whole content e) {t : Token} {ts : List Token} (hrest : e.rest = t :: ts) (hr : StraysBehindRegex t ts r) :
    ∃ p, e.locate r = ⟨r.fault, some p⟩ ∧ ShowsAt content r.fault p := by
  obtain ⟨n, s, hn, hs, rfl⟩ := hr
  refine ⟨s.position, rfl, ?_⟩
  obtain ⟨-, hline⟩ := regexLength_le hn
  have hposition : t.position = placeBehind (sourceText e.passed.reverse) := by
    rw [(h.cuts.placed e.passed.reverse t ts (by rw [buffer, hrest])).2.1, advance_first]
  rw [← Position.advance_of_line hline, hposition, advance_placeBehind] at hs
  obtain ⟨front, rest, htext, -, -, hend⟩ := lexFrom_cases (placeBehind (sourceText e.passed.reverse ++ (sourceText (t :: ts)).take n))
    (t.start + ((sourceText (t :: ts)).take n).length) ((sourceText (t :: ts)).drop n)
  rcases hend with ⟨hok, -⟩ | ⟨c, more, herror, rfl, hnone⟩
  · cases hok.symm.trans hs
  · obtain rfl := Except.error.inj (herror.symm.trans hs)
    rw [advance_placeBehind]
    refine .character ?_ hnone
    calc content = sourceText e.passed.reverse ++ sourceText (t :: ts) := by rw [← h.text, buffer, hrest, sourceText_append]
      _ = sourceText e.passed.reverse ++ ((sourceText (t :: ts)).take n ++ (sourceText front ++ c :: more)) := by
        rw [← htext, List.take_append_drop]
      _ = (sourceText e.passed.reverse ++ (sourceText (t :: ts)).take n ++ sourceText front) ++ c :: more := by
        simp only [List.append_assoc]

/-- Wherever the walk is refused, a token or a character of the source shows why. -/
theorem showsAt_of_walk {ts : List Token} (hlex : tokenize content 0 .first = .ok ts) (h : walk (start ts) = .error r) :
    ∃ p, r = ⟨r.fault, some p⟩ ∧ ShowsAt content r.fault p := by
  obtain ⟨e, hreach, hend⟩ := exists_of_walk_error h
  have hwhole := whole_of_reaches hlex hreach
  rcases hend with ⟨b, hrest, hframe, rfl⟩ | ⟨t, us, r', hrest, hstep, rfl⟩
  · have hne : e.buffer ≠ [] := by
      intro hnil
      -- nothing has been passed, and no bracket is open before the first step
      cases hreach with
      | refl => cases hframe
      | next hs hrun =>
        have hlt := (whole_start hlex).offset_lt hs
        have hsum := (whole_start hlex).offset_add
        have hsum' := ((whole_start hlex).step hs).offset_add
        have hcontent := hwhole.text
        rw [hnil] at hcontent
        rw [← hcontent] at hsum hsum'
        simp only [sourceText_nil, List.length_nil] at hsum hsum'
        omega
    exact hwhole.locate hne ⟨by simp, by simp⟩
  · have hne : e.buffer ≠ [] := by
      rw [buffer, hrest]
      exact List.append_ne_nil_of_right_ne_nil _ (List.cons_ne_nil t us)
    rcases refused_of_step hstep with hshown | hstray
    · obtain ⟨p, hp, hshows⟩ := hwhole.locate hne (hrest ▸ hshown)
      exact ⟨p, by rw [hp], by rw [hp]; exact hshows⟩
    · obtain ⟨p, hp, hshows⟩ := hwhole.stray hrest hstray
      exact ⟨p, by rw [hp], by rw [hp]; exact hshows⟩

end Ending

end Eraser

/-! ## Every source -/

namespace Eraser

/-- What is so wherever the walk gets. The tokens are the source, those kept are some of those passed, and an `export` that is taken back
is one of them. The frames are those of the open brackets with the whole source around them. Both the readers and the next step get
further in the source. -/
structure Sound (content : List Char) (e : Eraser) : Prop where
  buffer : Cuts content e.buffer
  kept : e.kept.Sublist e.passed
  retracted : e.previousText = some "export" → ∃ trivia t, e.kept = trivia ++ t :: e.retractExport.kept ∧ t.text = "export"
  frames : ∃ opened, e.Opened opened
  readers : ∀ front t ts, e.rest = front ++ t :: ts → ReadersAdvance t ts
  step : ∀ e', Steps e e' → e.offset < e'.offset ∧ e'.offset ≤ content.length

theorem Turns.opened {e e' : Eraser} {t : Token} {ts : List Token} {opened : List Bracket} (h : Turns e t ts e') (ho : e.Opened opened) :
    ∃ opened', e'.Opened opened' := by
  cases h with
  | same _ hsame _ => exact ⟨opened, hsame.opened ho⟩
  | @opens b _ hframe houter _ =>
    refine ⟨b :: opened, ?_⟩
    rw [Opened, List.map_cons, hframe, houter]
    exact congrArg (some b :: ·) ho
  | closes _ _ hframe houter _ =>
    rw [Opened, houter, List.map_cons, hframe] at ho
    cases opened with
    | nil => cases (List.cons.inj ho).1
    | cons b outer => exact ⟨outer, (List.cons.inj ho).2⟩

theorem opened_of_steps {e e' : Eraser} (hs : Steps e e') (ho : ∃ opened, e.Opened opened) : ∃ opened, e'.Opened opened := by
  obtain ⟨opened, ho⟩ := ho
  have hsame {e' : Eraser} (h : SameBrackets e e') : ∃ opened, e'.Opened opened := ⟨opened, h.opened ho⟩
  cases hs with
  | @intro t ts next _ h =>
    unfold step at h
    split at h
    · obtain rfl := Except.ok.inj h
      exact hsame (sameBrackets_onTrivia e t ts)
    split at h
    · exact hsame (sameBrackets_onIdentifier h)
    split at h
    · unfold onPunctuation at h
      split at h
      · split at h
        · unfold onRegex at h
          simp only at h
          split at h
          · cases h
          · obtain rfl := Except.ok.inj h
            exact hsame ⟨rfl, rfl⟩
        · exact (turns_onMark h).opened ho
      · exact (turns_onMark h).opened ho
    · obtain rfl := Except.ok.inj h
      exact hsame ⟨rfl, rfl⟩

/-- An `export` is taken back with what was kept behind it. -/
theorem kept_retractExport {e : Eraser} (h : e.previousText = some "export") :
    ∃ trivia t, e.kept = trivia ++ t :: e.retractExport.kept ∧ t.text = "export" := by
  obtain ⟨t, ht, htext⟩ := Option.map_eq_some_iff.mp h
  obtain ⟨ts, hts⟩ := List.head?_eq_some_iff.mp ht
  refine ⟨e.kept.takeWhile Token.isTrivia, t, ?_, htext⟩
  rw [retractExport, if_pos h]
  show e.kept = _ ++ t :: e.keptMeaning.tail
  rw [hts, List.tail_cons, ← hts]
  exact List.takeWhile_append_dropWhile.symm

theorem sound_of_reaches {content : List Char} {ts : List Token} {e : Eraser} (hlex : tokenize content 0 .first = .ok ts)
    (hreach : Reaches (start ts) e) : Sound content e := by
  have hwhole := whole_of_reaches hlex hreach
  have hframes : ∃ opened, e.Opened opened := hreach.preserves (fun ho hs => opened_of_steps hs ho) ⟨[], rfl⟩
  refine ⟨hwhole.cuts, hwhole.kept, kept_retractExport, hframes,
    fun front t us hrest => readersAdvance fun u hu => ?_, fun e' hs => ⟨hwhole.offset_lt hs, ?_⟩⟩
  · exact hwhole.pos_of_mem (List.mem_append_right _ (hrest ▸ List.mem_append_right _ hu))
  · have hsum := (hwhole.step hs).offset_add
    omega

end Eraser

open Eraser

end ScriptLoader.Syntax
