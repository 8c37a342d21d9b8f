import ScriptLoader.Proofs.Core.TypeExtent
import ScriptLoader.Proofs.Core.Dropping

/-!
# Conditional types

Conditions on types, nested in one another to any depth (`ConditionalForm`). Behind `extends` a single operand is skipped, so that a
condition is skipped as a whole if it tests for one operand, and skipping ends early, or fails, if it tests for several that are joined
(`skipType_conditional_iff`).
-/

namespace ScriptLoader.Syntax

open Eraser

/-! ## Conditions as they are written -/

section ConditionalForm

-- what may stand in round, square and curly brackets
variable (Body : List Piece → Prop)

/-- An operand that is no function type. It is `cut` if a negated number in it has an array suffix. -/
inductive OperandForm : (cut : Bool) → List Piece → Prop where
  | primary {ps suffixes : List Piece} (h : Primary Body ps) (hsuffixes : SuffixForms Body suffixes) : OperandForm false (ps ++ suffixes)
  | negative {m : Lexeme} (hm : m.1 = .number) : OperandForm false [.lexeme (mark "-"), .lexeme m]
  | negativeArray {m : Lexeme} {inner suffixes : List Piece} (hm : m.1 = .number) (hinner : Body inner)
      (hsuffixes : SuffixForms Body suffixes) :
      OperandForm true (.lexeme (mark "-") :: .lexeme m :: (inBrackets .square inner ++ suffixes))
  | prefixed {cut : Bool} {x : String} {m : Lexeme} {ps : List Piece} (hx : x ∈ typePrefixes) (hm : beginsPrefixed [m] = true)
      (h : OperandForm cut (.lexeme m :: ps)) : OperandForm cut (.lexeme (word x) :: .lexeme m :: ps)

/-- One such operand, or several that are joined. -/
inductive OperandForms : (cut several : Bool) → List Piece → Prop where
  | one {cut : Bool} {ps : List Piece} (h : OperandForm Body cut ps) : OperandForms cut false ps
  | join {cut cut' several : Bool} {op : String} {ps qs : List Piece} (hop : op ∈ ["|", "&"]) (h : OperandForm Body cut ps)
      (hothers : OperandForms cut' several qs) : OperandForms (cut || cut') true (ps ++ .lexeme (mark op) :: qs)

/-- A type or a condition. It is `cut` if a condition tests for several operands, or if a negated number has an array suffix, outside
brackets. -/
inductive ConditionalForm : (cut : Bool) → List Piece → Prop where
  | type {cut : Bool} {ps : List Piece} (h : TypeForm Body .whole cut ps) : ConditionalForm cut ps
  | condition {c₁ c₂ c₃ c₄ s₁ s₂ : Bool} {checked bound yes no : List Piece} (hchecked : OperandForms Body c₁ s₁ checked)
      (hbound : OperandForms Body c₂ s₂ bound) (hyes : ConditionalForm c₃ yes) (hno : ConditionalForm c₄ no) :
      ConditionalForm (c₁ || (c₂ || s₂) || (c₃ || c₄))
        (checked ++ .lexeme (word "extends") :: (bound ++ .lexeme (mark "?") :: (yes ++ .lexeme (mark ":") :: no)))

end ConditionalForm

section Forms

variable {Body : List Piece → Prop} {cut several : Bool} {ps : List Piece}

theorem OperandForm.name {x : String} (hx : x ∉ typePrefixes) : OperandForm Body false [.lexeme (word x)] := .primary (.name hx .nil) .nil

theorem OperandForm.operand (h : OperandForm Body cut ps) : TypeForm Body .operand cut ps := by
  induction h with
  | primary h hsuffixes => exact .simple (.primary h hsuffixes)
  | negative hm => exact .simple (.negative hm)
  | negativeArray hm hinner hsuffixes => exact .simple (.negativeArray hm hinner hsuffixes)
  | prefixed hx hm _ ih => exact .prefixed hx hm ih

theorem OperandForms.joined (h : OperandForms Body cut several ps) : TypeForm Body .joined cut ps := by
  induction h with
  | one h => exact .operand h.operand
  | join hop h _ ih => exact .join hop h.operand ih

theorem ConditionalForm.name {x : String} (hx : x ∉ typePrefixes) : ConditionalForm Body false [.lexeme (word x)] :=
  .type (.whole (.operand (OperandForm.name hx).operand))

end Forms

/-! ## What is left behind a part of a condition -/

/-- What is left begins with one of these marks, and `rest` comes later. -/
def StopsAt (marks : List String) (left rest : List Token) : Prop :=
  rest.length < left.length ∧ ∃ s ∈ marks, (lexemes left).head? = some (mark s)

/-- Skipping has ended before `rest`, and also ends before it if it goes on with what is joined. -/
def Astray (left rest : List Token) : Prop :=
  StopsAt ["[", "|", "&", "?"] left rest ∧
    ∃ left', Leaves (skipMore left) left' ∧ StopsAt ["[", "|", "&", "?"] left' rest ∧ Leaves (skipMore left') left'

theorem Leaves.unique {ts rest rest' : List Token} {x : Except Refusal (Rest ts)} (h : Leaves x rest) (h' : Leaves x rest') :
    rest = rest' := Except.ok.inj ((leaves_iff.mp h).symm.trans (leaves_iff.mp h'))

section StopsAt

variable {marks marks' : List String} {left mid rest : List Token}

theorem StopsAt.mono (h : StopsAt marks left mid) (hmarks : marks ⊆ marks') (hrest : rest.length ≤ mid.length) :
    StopsAt marks' left rest := by
  obtain ⟨hlength, s, hs, hhead⟩ := h
  exact ⟨Nat.lt_of_le_of_lt hrest hlength, s, hmarks hs, hhead⟩

theorem StopsAt.ne_head (h : StopsAt marks left rest) {s : String} (hs : s ∉ marks) {t : Token} {us : List Token}
    (hsig : significant left = t :: us) : t.text ≠ s := by
  obtain ⟨_, s', hs', hhead⟩ := h
  rw [head?_lexemes hsig] at hhead
  rw [(lexeme_eq_mark (Option.some.inj hhead)).2]
  rintro rfl
  exact hs hs'

/-- Nothing is joined in front of an array suffix or a question mark. -/
theorem StopsAt.settled (h : StopsAt ["[", "?"] left rest) : Leaves (skipMore left) left := by
  obtain ⟨_, s, hs, hhead⟩ := h
  refine skipMore_of_stop fun m hm => ?_
  rw [hhead] at hm
  rw [← Option.some.inj hm]
  exact (by decide : ∀ s ∈ ["[", "?"], (mark s).2 ≠ "|" ∧ (mark s).2 ≠ "&" ∧ mark s ≠ word "extends") s hs

theorem StopsAt.astray (h : StopsAt ["[", "?"] left mid) (hrest : rest.length ≤ mid.length) : Astray left rest :=
  have hstops := h.mono (by decide) hrest
  ⟨hstops, left, h.settled, hstops, h.settled⟩

theorem Astray.mono (h : Astray left mid) (hrest : rest.length ≤ mid.length) : Astray left rest := by
  obtain ⟨hstops, left', hmore, hstops', hsettled⟩ := h
  exact ⟨hstops.mono (List.Subset.refl _) hrest, left', hmore, hstops'.mono (List.Subset.refl _) hrest, hsettled⟩

/-- Where skipping went astray once, it stays astray. -/
theorem Astray.more (h : Astray left rest) {left' : List Token} (hmore : Leaves (skipMore left) left') : Astray left' rest := by
  obtain ⟨_, left'', hmore', hstops, hsettled⟩ := h
  rw [hmore.unique hmore']
  exact ⟨hstops, left'', hsettled, hstops, hsettled⟩

end StopsAt

/-! ## Skipping -/

section Skipping

variable {cut several : Bool} {ps qs : List Piece} {ms : List Lexeme} {ts us mid rest : List Token}

/-- A part of a condition, the symbol behind it, and the further parts. -/
theorem written_part {m : Lexeme} (hm : Merges (ps ++ .lexeme m :: qs) ms) (hw : Written (ms.map typed) ts rest) :
    ∃ first others mid t us, Merges ps first ∧ Written (first.map typed) ts mid ∧ Written ((m :: others).map typed) mid rest ∧
      significant mid = t :: us ∧ t.lexeme = m ∧ Merges qs others ∧ Written (others.map typed) us rest := by
  obtain ⟨first, others, rfl, hfirst, hothers⟩ := hm.split
  rw [List.map_append] at hw
  obtain ⟨mid, hfirstw, hsecond⟩ := hw.split
  obtain ⟨t, us, hsig, _, _, ht, hrest⟩ := hsecond.significant
  exact ⟨first, others, mid, t, us, hfirst, hfirstw, hsecond, hsig, ht, hothers, hrest⟩

/-- An operand is skipped, up to a negated number that has an array suffix. -/
theorem skipOperand_of_form (h : OperandForm NestedPieces cut ps) (hm : Merges ps ms) (hw : Written (ms.map typed) ts rest)
    (hend : EndsBefore .operand true false rest) :
    ∃ mid, LeavesTail (skipOperand (significant ts)) mid ∧ (cut = false → mid = rest) ∧ (cut = true → StopsAt ["["] mid rest) := by
  induction h generalizing ms ts rest with
  | primary h hsuffixes =>
    obtain ⟨suffixes, rfl, hgroups⟩ := suffixes_of_forms hsuffixes
    obtain ⟨base, rfl, hmerges⟩ := hm.of_append_lexemes
    obtain ⟨bare, hbase⟩ := base_of_primary h hmerges
    have hskip : LeavesTail (skipOperand (significant ts)) rest := skips_of_text (.simple (.based hbase hgroups)) hw hend.of_bare
    exact ⟨rest, hskip, fun _ => rfl, nofun⟩
  | @negative m hnumber =>
    have htwo : Merges ([mark "-", m].map .lexeme) ms := hm
    rw [htwo.eq_of_lexemes] at hw
    have hskip : LeavesTail (skipOperand (significant ts)) rest := skips_of_text (.simple (.negative hnumber)) hw hend.of_bare
    exact ⟨rest, hskip, fun _ => rfl, nofun⟩
  | @negativeArray m inner suffixes hnumber hinner hsuffixes =>
    have htwo : Merges ([mark "-", m].map .lexeme ++ (inBrackets .square inner ++ suffixes)) ms := hm
    obtain ⟨others, rfl, hothers⟩ := htwo.of_lexemes_append
    rw [List.map_append] at hw
    obtain ⟨mid, hfirst, hsecond⟩ := hw.split
    cases hothers
    refine ⟨mid, ?_, nofun, fun _ => ⟨hsecond.length_lt, "[", List.mem_cons_self, ?_⟩⟩
    · rw [skipOperand_eq_skipSimple (m := mark "-") nofun (by decide) hfirst]
      exact skipSimple_of_negative hnumber hfirst
    · rw [hsecond.lexemes_eq]
      rfl
  | @prefixed _ _ m ps hx hbegins h ih =>
    cases hm with
    | @lexeme _ _ ms hm =>
      have hms : beginsPrefixed ms = true := by
        cases hm
        exact hbegins
      obtain ⟨us, hus, f, hf, hskip⟩ := skipOperand_of_prefixed hx hms hw
      obtain ⟨mid, hdone, hends⟩ := ih hm hus hend
      refine ⟨mid, ?_, hends⟩
      rw [hskip]
      exact hdone.map f hf

/-- What skipping the first of some operands leaves. -/
structure BehindFirst (cut several : Bool) (mid rest : List Token) : Prop where
  exact : cut = false → several = false → mid = rest
  early : (cut || several) = true → StopsAt ["[", "|", "&"] mid rest
  more : cut = false → (skipMore mid).map (·.tokens) = (skipMore rest).map (·.tokens)
  moreEarly : cut = true → ∃ left, Leaves (skipMore mid) left ∧ StopsAt ["["] left rest

/-- The first of some operands is skipped, and what is joined to it, up to a negated number that has an array suffix. -/
theorem skipOperand_of_forms (h : OperandForms NestedPieces cut several ps) (hm : Merges ps ms) (hw : Written (ms.map typed) ts rest)
    (hend : EndsBefore .operand true false rest) :
    ∃ mid, LeavesTail (skipOperand (significant ts)) mid ∧ BehindFirst cut several mid rest := by
  induction h generalizing ms ts with
  | one h =>
    obtain ⟨mid, hskip, hexact, hearly⟩ := skipOperand_of_form h hm hw hend
    refine ⟨mid, hskip, fun hc _ => hexact hc, fun hc => ?_, fun hc => by rw [hexact hc], fun hc => ?_⟩
    · rw [Bool.or_false] at hc
      exact (hearly hc).mono (by decide) (Nat.le_refl _)
    · have hstops := hearly hc
      exact ⟨mid, (hstops.mono (by decide) (Nat.le_refl _)).settled, hstops⟩
  | @join c c' several op ps qs hop h hothers ih =>
    obtain ⟨first, others, mid, t, us, hfirst, hfirstw, hsecond, hsig, ht, hothers', hrest⟩ := written_part hm hw
    have hmarks : ∀ op ∈ ["|", "&"], goesOn .operand true false (mark op) = false ∧ op ∈ ["[", "|", "&"] := by decide
    obtain ⟨hgo, hmark⟩ := hmarks op hop
    obtain ⟨mid₁, hskip, hexact, hearly⟩ := skipOperand_of_form h hfirst hfirstw (endsBefore_of_written hsecond hgo)
    refine ⟨mid₁, hskip, ?_⟩
    cases c with
    | true =>
      have hstops : StopsAt ["["] mid₁ rest := (hearly rfl).mono (List.Subset.refl _) hsecond.suffix.length_le
      exact ⟨nofun, fun _ => hstops.mono (by decide) (Nat.le_refl _), nofun,
        fun _ => ⟨mid₁, (hstops.mono (by decide) (Nat.le_refl _)).settled, hstops⟩⟩
    | false =>
      obtain rfl : mid₁ = mid := hexact rfl
      obtain ⟨mid₂, hskip₂, hbehind⟩ := ih hothers' hrest
      have hjoin := skipMore_eq_of_join hop hsig ht hskip₂
      refine ⟨nofun, fun _ => ⟨hsecond.length_lt, op, hmark, ?_⟩, fun hc => hjoin.trans (hbehind.more hc), fun hc => ?_⟩
      · rw [hsecond.lexemes_eq]
        rfl
      · obtain ⟨left, hleft, hstops⟩ := hbehind.moreEarly hc
        exact ⟨left, leaves_iff.mpr (hjoin.trans (leaves_iff.mp hleft)), hstops⟩

theorem firstOperand_of_forms (h : OperandForms NestedPieces cut several ps) (hm : Merges ps ms) (hw : Written (ms.map typed) ts rest) :
    (firstOperand ts).tokens = significant ts := by
  obtain ⟨m, ps', rfl, hhead, _⟩ := form_head h.joined
  cases hm
  exact firstOperand_of_head (hhead nofun) hw

/-- Behind the operand that a condition tests for, no question mark follows: the condition is left there. -/
theorem skipMore_of_bound {t : Token} (hsig : significant ts = t :: us) (ht : t.lexeme = word "extends")
    (hbound : LeavesTail (skipOperand (significant us)) mid) (hmid : ∀ q vs, significant mid = q :: vs → q.text ≠ "?") :
    Leaves (skipMore ts) mid := by
  obtain ⟨hkind, htext⟩ := lexeme_eq_word ht
  obtain ⟨r, hr, rfl⟩ := hbound
  rw [skipMore]
  split
  · rename_i hnil
    rw [hsig] at hnil
    cases hnil
  rename_i t' us' hcons
  obtain ⟨rfl, rfl⟩ := List.cons.inj (hsig.symm.trans hcons)
  have hr' : skipOperand (afterToken t us).tokens = .ok r := hr
  rw [if_neg (by rw [htext]; decide), if_pos (by rw [htext, hkind]; rfl), hr']
  simp only
  split
  · exact ⟨_, rfl, rfl⟩
  · rename_i q vs hq
    rw [if_neg (hmid q vs hq)]
    exact ⟨_, rfl, rfl⟩

/-- A condition that is skipped has a colon behind its first arm. -/
theorem colon_of_skipMore {t q : Token} {vs : List Token} (hsig : significant ts = t :: us) (ht : t.lexeme = word "extends")
    (hbound : LeavesTail (skipOperand (significant us)) mid) (hq : significant mid = q :: vs) (hqlex : q.lexeme = mark "?")
    {r : Rest ts} (h : skipMore ts = .ok r) :
    ∃ r₁, skipType vs = .ok r₁ ∧ ∃ c ws, significant r₁.tokens = c :: ws ∧ c.text = ":" := by
  obtain ⟨hkind, htext⟩ := lexeme_eq_word ht
  obtain ⟨r₀, hr₀, rfl⟩ := hbound
  rw [skipMore] at h
  split at h
  · rename_i hnil
    rw [hsig] at hnil
    cases hnil
  rename_i t' us' hcons
  obtain ⟨rfl, rfl⟩ := List.cons.inj (hsig.symm.trans hcons)
  have hr₀' : skipOperand (afterToken t us).tokens = .ok r₀ := hr₀
  rw [if_neg (by rw [htext]; decide), if_pos (by rw [htext, hkind]; rfl), hr₀'] at h
  simp only at h
  split at h
  · rename_i hnil
    rw [hq] at hnil
    cases hnil
  rename_i q' vs' hcons'
  obtain ⟨rfl, rfl⟩ := List.cons.inj (hq.symm.trans hcons')
  rw [if_pos (lexeme_eq_mark hqlex).2] at h
  cases hr₁ : skipType vs with
  | error e =>
    rw [hr₁] at h
    cases h
  | ok r₁ =>
    rw [hr₁] at h
    simp only at h
    refine ⟨r₁, rfl, ?_⟩
    split at h
    · cases h
    · rename_i c ws hc
      split at h
      · exact ⟨c, ws, hc, ‹_›⟩
      · cases h

/-- A type or a condition that is not cut is skipped as a whole. -/
theorem skipType_of_conditional (h : ConditionalForm NestedPieces false ps) (hm : Merges ps ms) (hw : Written (ms.map typed) ts rest)
    (hend : EndsBefore .whole true true rest) : LeavesTail (skipType ts) rest := by
  generalize hcut : false = cut at h
  have hdone : ∀ {rest}, EndsBefore .whole true true rest → Leaves (skipMore rest) rest := fun h => skipMore_of_end h (isOpen_whole true)
  induction h generalizing ms ts rest with
  | type h =>
    subst hcut
    obtain ⟨mid, hskip, hexact⟩ := skips_of_form h hm hw (hend.of_isOpen nofun) (hdone hend) (hdone hend)
    obtain rfl : mid = rest := hexact
    exact hskip
  | @condition c₁ c₂ c₃ c₄ s₁ s₂ _ _ _ _ hchecked hbound _ _ ihyes ihno =>
    simp only [Bool.false_eq, Bool.or_eq_false_iff] at hcut
    obtain ⟨⟨rfl, rfl, rfl⟩, rfl, rfl⟩ := hcut
    obtain ⟨_, _, mid, t, us, hchecked', hcheckedw, hextendsw, hsig, ht, hm, hw⟩ := written_part hm hw
    obtain ⟨_, _, mid', q, vs, hbound', hboundw, hquestionw, hq, hqlex, hm, hw⟩ := written_part hm hw
    obtain ⟨_, _, mid'', c, ws, hyes', hyesw, hcolonw, hc, hclex, hno', hnow⟩ := written_part hm hw
    obtain ⟨first, hskip, hfirst⟩ := skipOperand_of_forms hchecked hchecked' hcheckedw (endsBefore_of_written hextendsw rfl)
    obtain ⟨left, hskip', hleft⟩ := skipOperand_of_forms hbound hbound' hboundw (endsBefore_of_written hquestionw rfl)
    obtain rfl : left = mid' := hleft.exact rfl rfl
    have hyes := ihyes hyes' hyesw (endsBefore_of_written hcolonw rfl) rfl
    obtain ⟨r, hr, rfl⟩ := ihno hno' hnow hend rfl
    rw [leavesTail_iff, skipType_eq_of_first (firstOperand_of_forms hchecked hchecked' hcheckedw) hskip, hfirst.more rfl,
      skipMore_eq_of_condition hsig ht hskip' hq hqlex hyes hc hclex, hr]
    exact leaves_iff.mp (hdone hend)

/-- A condition that tests for several operands is left behind the first of them, or at a negated number before that. -/
theorem astray_of_bound {t : Token} (hsig : significant ts = t :: us) (ht : t.lexeme = word "extends") {first stop : List Token}
    (hbound : LeavesTail (skipOperand (significant us)) first) (hfirst : BehindFirst cut several first stop)
    (hcut : (cut || several) = true) (hstop : StopsAt ["?"] stop rest) :
    Leaves (skipMore ts) first ∧ Astray first rest := by
  have hearly := hfirst.early hcut
  refine ⟨skipMore_of_bound hsig ht hbound fun q vs hq => hearly.ne_head (by decide) hq,
    hearly.mono (by decide) (Nat.le_of_lt hstop.1), ?_⟩
  cases cut with
  | true =>
    obtain ⟨left, hleft, hstops⟩ := hfirst.moreEarly rfl
    have hstops' : StopsAt ["[", "?"] left rest := hstops.mono (by decide) (Nat.le_of_lt hstop.1)
    exact ⟨left, hleft, hstops'.mono (by decide) (Nat.le_refl _), hstops'.settled⟩
  | false =>
    have hstop' : StopsAt ["[", "?"] stop rest := hstop.mono (by decide) (Nat.le_refl _)
    refine ⟨stop, ?_, hstop'.mono (by decide) (Nat.le_refl _), hstop'.settled⟩
    rw [leaves_iff, hfirst.more rfl]
    exact leaves_iff.mp hstop'.settled

/-- A type or a condition that is cut is not skipped as a whole. -/
theorem astray_of_conditional (h : ConditionalForm NestedPieces true ps) (hm : Merges ps ms) (hw : Written (ms.map typed) ts rest)
    (hend : EndsBefore .whole true true rest) {left : List Token} (hleft : LeavesTail (skipType ts) left) : Astray left rest := by
  generalize hcut : true = cut at h
  induction h generalizing ms ts rest left with
  | type h =>
    subst hcut
    have hdone : Leaves (skipMore rest) rest := skipMore_of_end hend (isOpen_whole true)
    obtain ⟨mid, ⟨r, hr, rfl⟩, hhead, hlater⟩ := skips_within_form h hm hw (hend.of_isOpen nofun) hdone hdone
    obtain ⟨r', hr', rfl⟩ := hleft
    obtain rfl := Except.ok.inj (hr.symm.trans hr')
    exact StopsAt.astray ⟨hlater rfl, "[", by decide, hhead⟩ (Nat.le_refl _)
  | @condition c₁ c₂ c₃ c₄ s₁ s₂ _ _ _ _ hchecked hbound hyes hno ihyes ihno =>
    obtain ⟨_, _, mid, t, us, hchecked', hcheckedw, hextendsw, hsig, ht, hm, hw⟩ := written_part hm hw
    obtain ⟨_, _, mid', q, vs, hbound', hboundw, hquestionw, hq, hqlex, hm, hw⟩ := written_part hm hw
    obtain ⟨_, _, mid'', c, ws, hyes', hyesw, hcolonw, hc, hclex, hno', hnow⟩ := written_part hm hw
    obtain ⟨first, hskip, hfirst⟩ := skipOperand_of_forms hchecked hchecked' hcheckedw (endsBefore_of_written hextendsw rfl)
    obtain ⟨first', hskip', hfirst'⟩ := skipOperand_of_forms hbound hbound' hboundw (endsBefore_of_written hquestionw rfl)
    have hmore : Leaves (skipMore first) left := by
      rw [leaves_iff, ← skipType_eq_of_first (firstOperand_of_forms hchecked hchecked' hcheckedw) hskip]
      exact leavesTail_iff.mp hleft
    cases c₁ with
    | true =>
      obtain ⟨stop, hstop, hstops⟩ := hfirst.moreEarly rfl
      rw [hmore.unique hstop]
      exact (hstops.mono (by decide) (Nat.le_refl _)).astray hextendsw.suffix.length_le
    | false =>
      have hmore' : Leaves (skipMore mid) left := by
        rw [leaves_iff, ← hfirst.more rfl]
        exact leaves_iff.mp hmore
      cases hboundCut : c₂ || s₂ with
      | true =>
        have hquestion : StopsAt ["?"] mid' rest := ⟨hquestionw.length_lt, "?", List.mem_cons_self, hquestionw.lexemes_eq ▸ rfl⟩
        obtain ⟨hstop, hastray⟩ := astray_of_bound hsig ht hskip' hfirst' hboundCut hquestion
        rw [hmore'.unique hstop]
        exact hastray
      | false =>
        obtain ⟨rfl, rfl⟩ := Bool.or_eq_false_iff.mp hboundCut
        obtain rfl : first' = mid' := hfirst'.exact rfl rfl
        cases c₃ with
        | true =>
          -- no colon stands where skipping the first arm has ended
          obtain ⟨r, hr, rfl⟩ := hmore'
          obtain ⟨r₁, hr₁, c', ws', hc', hcolon⟩ := colon_of_skipMore hsig ht hskip' hq hqlex hr
          have hastray := ihyes hyes' hyesw (endsBefore_of_written hcolonw rfl) ⟨r₁, hr₁, rfl⟩ rfl
          exact absurd hcolon (hastray.1.ne_head (by decide) hc')
        | false =>
          have hyesLeft := skipType_of_conditional hyes hyes' hyesw (endsBefore_of_written hcolonw rfl)
          rw [leaves_iff, skipMore_eq_of_condition hsig ht hskip' hq hqlex hyesLeft hc hclex] at hmore'
          cases hr₂ : skipType ws with
          | error e =>
            rw [hr₂] at hmore'
            nomatch hmore'
          | ok r₂ =>
            rw [hr₂] at hmore'
            exact (ihno hno' hnow hend ⟨r₂, hr₂, rfl⟩ hcut).more (leaves_iff.mpr hmore')

/-- A type alias is erased in one step: its type is skipped, and a semicolon behind it. -/
theorem exists_step_eq_of_alias {e : Eraser} {t : Token} {name : String} {parameters ss : List Sym} (he : e.BeginsStatement)
    (ht : t.lexeme = word "type") (hparameters : Arguments parameters)
    (hw : Written (typedWord name :: (parameters ++ typedMark "=" :: ss)) us rest) :
    ∃ us', Written ss us' rest ∧ (step e t us).map (fun e' => (e'.1.rest, e'.1.kept)) =
      (skipType us').map fun r => ((skipSemicolon r.tokens).tokens, e.retractExport.kept) := by
  obtain ⟨s, others, hhead, hs⟩ := exists_head_of_alias hparameters ss
  rw [hhead] at hw
  obtain ⟨mid, hw', f, hf, hstep⟩ := step_of_typeAlias he ht hw hs
  obtain ⟨us', htype, hskip⟩ := skipTypeAlias_eq hparameters (hhead ▸ hw')
  refine ⟨us', htype, ?_⟩
  calc (step e t us).map (fun e' => (e'.1.rest, e'.1.kept))
      = ((skipTypeAlias mid).map (·.tokens)).map fun left => (left, e.retractExport.kept) := by
        rw [hstep]
        cases skipTypeAlias mid with
        | error err => rfl
        | ok r => exact congrArg (fun left => Except.ok (left, e.retractExport.kept)) (hf r)
    _ = ((skipType us').map fun r => (skipSemicolon r.tokens).tokens).map fun left => (left, e.retractExport.kept) := by rw [hskip]
    _ = _ := by cases skipType us' <;> rfl

/-- A type alias is erased as a whole if and only if its type is skipped up to the semicolon, which is skipped with it. -/
theorem exists_step_iff_of_alias {e : Eraser} {t : Token} {name : String} {parameters ss : List Sym} (he : e.BeginsStatement)
    (ht : t.lexeme = word "type") (hparameters : Arguments parameters)
    (hw : Written (typedWord name :: (parameters ++ typedMark "=" :: ss)) us rest) :
    ∃ us', Written ss us' rest ∧ ((∃ e', step e t us = .ok e' ∧ e'.1.rest = rest ∧ e'.1.kept = e.retractExport.kept) ↔
      ∃ left, LeavesTail (skipType us') left ∧ (skipSemicolon left).tokens = rest) := by
  obtain ⟨us', htype, hstep⟩ := exists_step_eq_of_alias he ht hparameters hw
  refine ⟨us', htype, ⟨?_, ?_⟩⟩
  · rintro ⟨e', hok, hrest, _⟩
    rw [hok] at hstep
    obtain ⟨r, hr, hleft⟩ := ok_of_map hstep.symm
    exact ⟨r.tokens, ⟨r, hr, rfl⟩, (Prod.mk.inj hleft).1.trans hrest⟩
  · rintro ⟨left, ⟨r, hr, rfl⟩, hleft⟩
    rw [hr] at hstep
    obtain ⟨e', hok, hpair⟩ := ok_of_map hstep
    obtain ⟨hrest, hkept⟩ := Prod.mk.inj hpair
    exact ⟨e', hok, hrest.trans hleft, hkept⟩

/-- A type or a condition is skipped as a whole, and a type alias of it erased as a whole, if and only if it is not cut. -/
theorem skipType_conditional_iff (h : ConditionalForm NestedPieces cut ps) (hm : Merges ps ms) :
    (∀ ts rest, Written (ms.map typed) ts rest → EndsBefore .whole true true rest → (LeavesTail (skipType ts) rest ↔ cut = false)) ∧
      ∀ (e : Eraser) (t : Token) (us rest : List Token) (name : String) (parameters : List Sym), e.BeginsStatement →
        t.lexeme = word "type" → Arguments parameters →
        Written (typedWord name :: (parameters ++ typedMark "=" :: (ms.map typed ++ [typedMark ";"]))) us rest →
        ((∃ e', step e t us = .ok e' ∧ e'.1.rest = rest ∧ e'.1.kept = e.retractExport.kept) ↔ cut = false) := by
  constructor
  · intro ts rest hw hend
    cases cut with
    | false => exact iff_of_true (skipType_of_conditional h hm hw hend) rfl
    | true =>
      refine iff_of_false (fun hleft => ?_) nofun
      exact absurd (astray_of_conditional h hm hw hend hleft).1.1 (Nat.lt_irrefl _)
  · intro e t us rest name parameters he ht hparameters hw
    obtain ⟨us', hw', herased⟩ := exists_step_iff_of_alias he ht hparameters hw
    obtain ⟨mid, htype, hsemicolon⟩ := hw'.split
    have hend : EndsBefore .whole true true mid := endsBefore_of_written hsemicolon rfl
    rw [herased]
    cases cut with
    | false => exact iff_of_true ⟨mid, skipType_of_conditional h hm htype hend, skipSemicolon_of_written hsemicolon⟩ rfl
    | true =>
      refine iff_of_false ?_ nofun
      rintro ⟨left, hleft, hrest⟩
      obtain ⟨⟨hlength, hstops⟩, _⟩ := astray_of_conditional h hm htype hend hleft
      -- no semicolon stands where skipping has ended
      have hnone : headIn (significant left) [";"] = false := by
        obtain ⟨s, hs, hhead⟩ := hstops
        rw [headIn_significant, hhead]
        exact (by decide : ∀ s ∈ ["[", "|", "&", "?"], [";"].contains (mark s).2 = false) s hs
      rw [skipSemicolon_of_other hnone] at hrest
      subst hrest
      exact absurd (Nat.lt_trans hlength hsemicolon.length_lt) (Nat.lt_irrefl _)

theorem skipType_conditional_iff_nested : ∃ ps ms, ConditionalForm NestedPieces false ps ∧ Merges ps ms ∧
    (∃ ts rest, tokenize "T | U extends A[] ? X : V extends 'a' ? Y : Z;".toList 0 .first = .ok ts ∧ Written (ms.map typed) ts rest ∧
      EndsBefore .whole true true rest ∧ LeavesTail (skipType ts) rest) ∧
    ∃ t us rest, tokenize "type C = T | U extends A[] ? X : V extends 'a' ? Y : Z; f();".toList 0 .first = .ok (t :: us) ∧
      (start (t :: us)).BeginsStatement ∧ t.lexeme = word "type" ∧ Arguments [] ∧
      Written (typedWord "C" :: ([] ++ typedMark "=" :: (ms.map typed ++ [typedMark ";"]))) us rest ∧
      ∃ e', step (start (t :: us)) t us = .ok e' ∧ e'.1.rest = rest ∧ e'.1.kept = [] := by
  have hor : "|" ∈ ["|", "&"] := by decide
  have hinner : ConditionalForm NestedPieces false _ :=
    .condition (.one (.name (x := "V") (by decide))) (.one (.primary (.literal (m := (.string, "'a'")) rfl) .nil))
      (.name (x := "Y") (by decide)) (.name (x := "Z") (by decide))
  have hform : ConditionalForm NestedPieces false _ :=
    .condition (.join hor (.name (x := "T") (by decide)) (.one (.name (x := "U") (by decide))))
      (.one (.primary (.name (x := "A") (by decide) .nil) (.cons nestedPieces_nil .nil))) (.name (x := "X") (by decide)) hinner
  let ms := [word "T", mark "|", word "U", word "extends", word "A", mark "[", mark "]", mark "?", word "X", mark ":", word "V",
    word "extends", (.string, "'a'"), mark "?", word "Y", mark ":", word "Z"]
  have hmerges : Merges _ ms := .of_lexemes ms
  obtain ⟨htypes, haliases⟩ := skipType_conditional_iff hform hmerges
  refine ⟨_, ms, hform, hmerges, ?_, ?_⟩
  · obtain ⟨ts, hlex, hlexemes⟩ : ∃ ts, tokenize "T | U extends A[] ? X : V extends 'a' ? Y : Z;".toList 0 .first = .ok ts ∧
        lexemes ts = ms ++ mark ";" :: [] := by
      refine ok_of_map ?_
      cbv
    obtain ⟨rest, hw, hend⟩ := written_before (shaped_of_lexFrom (lexFrom_of_tokenize hlex)) hlexemes rfl
    exact ⟨ts, rest, hlex, hw, hend, (htypes ts rest hw hend).mpr rfl⟩
  · obtain ⟨t, us, hlex, ht, hlexemes, hshape⟩ :=
      exists_cons_of_tokenize "type C = T | U extends A[] ? X : V extends 'a' ? Y : Z; f();" (word "type")
        (word "C" :: mark "=" :: ms ++ mark ";" :: [word "f", mark "(", mark ")", mark ";"]) (by cbv)
    have hsame : lexemes us = (typedWord "C" :: ([] ++ typedMark "=" :: (ms.map typed ++ [typedMark ";"]))).map Sym.lexeme ++
        [word "f", mark "(", mark ")", mark ";"] := hlexemes
    obtain ⟨rest, hw, _⟩ := exists_written_of_lexemes (by decide) (List.forall_mem_cons.mp hshape).2 hsame
    have hstart : (start (t :: us)).BeginsStatement := beginsStatement_start _
    exact ⟨t, us, rest, hlex, hstart, ht, .none, hw, (haliases _ t us rest "C" [] hstart ht .none hw).mpr rfl⟩

/-- Behind `extends` a second operand is not read, and what follows the first one stays in the code. -/
theorem skipType_joinedBound : ∃ ps ms ts rest, ConditionalForm NestedPieces true ps ∧ Merges ps ms ∧
    tokenize "T extends B | C ? X : Y;".toList 0 .first = .ok ts ∧ Written (ms.map typed) ts rest ∧ EndsBefore .whole true true rest ∧
      ¬ LeavesTail (skipType ts) rest ∧ erase "type A<T> = T extends B | C ? X : Y;" = .ok ⟨" | C ? X : Y;", []⟩ := by
  have hor : "|" ∈ ["|", "&"] := by decide
  have hform : ConditionalForm NestedPieces true _ :=
    .condition (.one (.name (x := "T") (by decide)))
      (.join hor (.name (x := "B") (by decide)) (.one (.name (x := "C") (by decide))))
      (.name (x := "X") (by decide)) (.name (x := "Y") (by decide))
  let ms := [word "T", word "extends", word "B", mark "|", word "C", mark "?", word "X", mark ":", word "Y"]
  have hmerges : Merges _ ms := .of_lexemes ms
  obtain ⟨ts, hlex, hlexemes⟩ : ∃ ts, tokenize "T extends B | C ? X : Y;".toList 0 .first = .ok ts ∧
      lexemes ts = ms ++ mark ";" :: [] := by
    refine ok_of_map ?_
    cbv
  obtain ⟨rest, hw, hend⟩ := written_before (shaped_of_lexFrom (lexFrom_of_tokenize hlex)) hlexemes rfl
  refine ⟨_, ms, ts, rest, hform, hmerges, hlex, hw, hend, fun hleft => ?_, by cbv⟩
  exact absurd (astray_of_conditional hform hmerges hw hend hleft).1.1 (Nat.lt_irrefl _)

end Skipping

end ScriptLoader.Syntax
