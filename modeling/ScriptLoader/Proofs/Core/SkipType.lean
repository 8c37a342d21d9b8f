import ScriptLoader.Proofs.Core.Types

/-!
# Types are skipped

Where a type stands, `skipType` skips exactly that type (`skipType_of_text`), provided that what follows does not go on with it.
-/

namespace ScriptLoader.Syntax

/-- Skipping succeeds and leaves `rest`. -/
def Leaves {ts : List Token} (x : Except Refusal (Rest ts)) (rest : List Token) : Prop := ∃ r, x = .ok r ∧ r.tokens = rest

/-- Skipping at least one token succeeds and leaves `rest`. -/
def LeavesTail {ts : List Token} (x : Except Refusal (Tail ts)) (rest : List Token) : Prop := ∃ r, x = .ok r ∧ r.tokens = rest

theorem leaves_iff {ts rest : List Token} {x : Except Refusal (Rest ts)} : Leaves x rest ↔ x.map (·.tokens) = .ok rest := by
  constructor
  · rintro ⟨r, rfl, rfl⟩
    rfl
  · intro h
    cases x with
    | error e => nomatch h
    | ok r => exact ⟨r, rfl, Except.ok.inj h⟩

theorem leavesTail_iff {ts rest : List Token} {x : Except Refusal (Tail ts)} : LeavesTail x rest ↔ x.map (·.tokens) = .ok rest := by
  constructor
  · rintro ⟨r, rfl, rfl⟩
    rfl
  · intro h
    cases x with
    | error e => nomatch h
    | ok r => exact ⟨r, rfl, Except.ok.inj h⟩

theorem map_tokens_map {us ts : List Token} {x : Except Refusal (Rest us)} (f : Rest us → Rest ts)
    (hf : ∀ r, (f r).tokens = r.tokens) : (x.map f).map (·.tokens) = x.map (·.tokens) := by
  cases x with
  | error e => rfl
  | ok r => exact congrArg Except.ok (hf r)

theorem Leaves.map {us ts rest : List Token} {x : Except Refusal (Rest us)} (h : Leaves x rest) (f : Rest us → Rest ts)
    (hf : ∀ r, (f r).tokens = r.tokens) : Leaves (x.map f) rest := by
  obtain ⟨r, rfl, rfl⟩ := h
  exact ⟨f r, rfl, hf r⟩

theorem Leaves.mapTail {us ts rest : List Token} {x : Except Refusal (Rest us)} (h : Leaves x rest) (f : Rest us → Tail ts)
    (hf : ∀ r, (f r).tokens = r.tokens) : LeavesTail (x.map f) rest := by
  obtain ⟨r, rfl, rfl⟩ := h
  exact ⟨f r, rfl, hf r⟩

theorem LeavesTail.map {us ts rest : List Token} {x : Except Refusal (Tail us)} (h : LeavesTail x rest) (f : Tail us → Tail ts)
    (hf : ∀ r, (f r).tokens = r.tokens) : LeavesTail (x.map f) rest := by
  obtain ⟨r, rfl, rfl⟩ := h
  exact ⟨f r, rfl, hf r⟩

/-! ## Brackets -/

theorem lexeme_eq_mark {t : Token} {s : String} (h : t.lexeme = mark s) : t.kind = .punctuation ∧ t.text = s :=
  Prod.mk.inj h

theorem isTrivia_of_mark {t : Token} {s : String} (h : t.lexeme = mark s) : t.isTrivia = false := by
  rw [Token.isTrivia, (lexeme_eq_mark h).1]
  rfl

theorem lexeme_eq_word {t : Token} {s : String} (h : t.lexeme = word s) : t.kind = .identifier ∧ t.text = s :=
  Prod.mk.inj h

theorem isTrivia_of_word {t : Token} {s : String} (h : t.lexeme = word s) : t.isTrivia = false := by
  rw [Token.isTrivia, (lexeme_eq_word h).1]
  rfl

theorem opener_ne_closer (b : Bracket) : b.closer ≠ b.opener := by cases b <;> decide

/-- No other bracket is written like this one. -/
theorem ne_opener_of {b : Bracket} {s : String} (h : Bracket.opened? s ≠ some b) : s ≠ b.opener := by
  rintro rfl
  exact h (Bracket.opened?_opener b)

theorem ne_closer_of {b : Bracket} {s : String} (h : Bracket.closed? s ≠ some b) : s ≠ b.closer := by
  rintro rfl
  exact h (Bracket.closed?_closer b)

theorem opened?_closer (b : Bracket) : Bracket.opened? b.closer = none := by cases b <;> decide

theorem closed?_opener (b : Bracket) : Bracket.closed? b.opener = none := by cases b <;> decide

/-- What is no bracket is passed over. -/
theorem skipPast_cons_other {b : Bracket} {n : Nat} {t : Token} {ts rest : List Token} (hopen : t.text ≠ b.opener)
    (hclose : t.text ≠ b.closer) (h : Leaves (skipPast b n ts) rest) : Leaves (skipPast b n (t :: ts)) rest := by
  unfold skipPast
  rw [if_neg hopen, if_neg hclose]
  exact h.map _ fun _ => rfl

/-- One more bracket of the kind opens, and closes further on. -/
theorem skipPast_cons_opener {b : Bracket} {n : Nat} {t : Token} {ts rest : List Token} (ht : t.text = b.opener)
    (h : Leaves (skipPast b (n + 1) ts) rest) : Leaves (skipPast b n (t :: ts)) rest := by
  unfold skipPast
  rw [if_pos ht]
  exact h.map _ fun _ => rfl

theorem skipPast_cons_closer {b : Bracket} {n : Nat} {t : Token} {ts rest : List Token} (ht : t.text = b.closer)
    (h : Leaves (skipPast b n ts) rest) : Leaves (skipPast b (n + 1) (t :: ts)) rest := by
  unfold skipPast
  rw [if_neg (by rw [ht]; exact opener_ne_closer b), if_pos ht]
  exact h.map _ fun _ => rfl

/-- The bracket that is skipped closes. -/
theorem skipPast_cons_last {b : Bracket} {t : Token} (ht : t.text = b.closer) (ts : List Token) :
    Leaves (skipPast b 0 (t :: ts)) ts := by
  unfold skipPast
  rw [if_neg (by rw [ht]; exact opener_ne_closer b), if_pos ht]
  exact ⟨_, rfl, rfl⟩

theorem skipPast_of_trivia {b : Bracket} {n : Nat} {blanks ts rest : List Token}
    (hblanks : ∀ t ∈ blanks, t.isTrivia = true ∧ t.Shaped) (h : Leaves (skipPast b n ts) rest) :
    Leaves (skipPast b n (blanks ++ ts)) rest := by
  induction blanks with
  | nil => exact h
  | cons t blanks ih =>
    obtain ⟨htrivia, hshape⟩ := hblanks t List.mem_cons_self
    have hother := hshape.beginsOther_of_trivia htrivia
    refine skipPast_cons_other ?_ ?_ (ih fun u hu => hblanks u (List.mem_cons_of_mem _ hu))
    · exact ne_of_beginsOther hother (by cases b <;> decide)
    · exact ne_of_beginsOther hother (by cases b <;> decide)

/-- Nested brackets are passed over. -/
theorem skipPast_of_nested {b : Bracket} {ms : List Lexeme} (h : Nested ms) {n : Nat} {ts mid rest : List Token}
    (hw : Written (ms.map typed) ts mid) (hmid : Leaves (skipPast b n mid) rest) : Leaves (skipPast b n ts) rest := by
  induction h generalizing n ts mid with
  | nil =>
    rw [List.map_nil, Written.nil_iff] at hw
    rw [hw]
    exact hmid
  | @leaf m ms hopen hclose h ih =>
    obtain ⟨blanks, t, us, rfl, hblanks, _, _, _, hs, hrest⟩ := hw.uncons
    have htext : t.text = m.2 := congrArg Prod.snd hs
    refine skipPast_of_trivia hblanks (skipPast_cons_other ?_ ?_ (ih hrest hmid))
    · rw [htext]
      exact ne_opener_of (by rw [hopen]; nofun)
    · rw [htext]
      exact ne_closer_of (by rw [hclose]; nofun)
  | group k hinner h ihinner ih =>
    rw [List.map_append, List.map_cons, List.map_cons] at hw
    obtain ⟨after, hfirst, hsecond⟩ := hw.split
    obtain ⟨blanks, t, us, rfl, hblanks, _, _, _, hs, hopened⟩ := hfirst.uncons
    obtain ⟨_, htext⟩ := lexeme_eq_mark hs
    obtain ⟨blanks', t', us', rfl, hblanks', _, _, _, hs', hclosed⟩ := hsecond.uncons
    obtain ⟨_, htext'⟩ := lexeme_eq_mark hs'
    have hlast := ih hclosed hmid
    refine skipPast_of_trivia hblanks ?_
    by_cases hkb : k = b
    · subst hkb
      refine skipPast_cons_opener htext (ihinner hopened (skipPast_of_trivia hblanks' ?_))
      exact skipPast_cons_closer htext' hlast
    · refine skipPast_cons_other ?_ ?_ (ihinner hopened (skipPast_of_trivia hblanks' (skipPast_cons_other ?_ ?_ hlast)))
      · rw [htext]
        exact ne_opener_of (by rw [Bracket.opened?_opener]; exact fun h => hkb (Option.some.inj h))
      · rw [htext]
        exact ne_closer_of (by rw [closed?_opener]; nofun)
      · rw [htext']
        exact ne_opener_of (by rw [opened?_closer]; nofun)
      · rw [htext']
        exact ne_closer_of (by rw [Bracket.closed?_closer]; exact fun h => hkb (Option.some.inj h))

/-- A pair of brackets is skipped as a whole. -/
theorem skipBracket_of_group {b : Bracket} {ms : List Lexeme} (h : Group b ms) {ts rest : List Token}
    (hw : Written (ms.map typed) ts rest) :
    LeavesTail (skipBracket b (significant ts)) rest ∧ ∃ t us, significant ts = t :: us ∧ t.lexeme = mark b.opener := by
  obtain ⟨hinner⟩ := h
  rw [List.map_append, List.map_cons] at hw
  obtain ⟨mid, hfirst, hlast⟩ := hw.split
  obtain ⟨t, us, hsig, _, _, hs, hinside⟩ := hfirst.significant
  obtain ⟨blanks, t', us', rfl, hblanks, _, _, _, hs', hrest⟩ := hlast.uncons
  obtain ⟨_, htext'⟩ := lexeme_eq_mark hs'
  rw [List.map_nil, Written.nil_iff] at hrest
  subst hrest
  refine ⟨?_, t, us, hsig, hs⟩
  rw [hsig]
  have hskip : Leaves (skipPast b 0 us) us' :=
    skipPast_of_nested hinner hinside (skipPast_of_trivia hblanks (skipPast_cons_last htext' us'))
  exact hskip.mapTail _ fun _ => rfl

/-! ## Angle brackets -/

/-- Skipping may succeed, and then leaves `rest`. -/
def Finds {ts : List Token} (x : Option (Tail ts)) (rest : List Token) : Prop := ∃ r, x = some r ∧ r.tokens = rest

theorem Finds.of_eq {us ts rest : List Token} {x : Option (Tail ts)} {y : Option (Tail us)}
    (heq : x.map (·.tokens) = y.map (·.tokens)) (h : Finds y rest) : Finds x rest := by
  obtain ⟨r, rfl, rfl⟩ := h
  exact Option.map_eq_some_iff.mp heq

/-- The pieces close the last of `depth` angle brackets at their end and not before, with the brackets `opened` open at the front. -/
def Closes : (depth : Nat) → (opened : List Bracket) → List Piece → Prop
  | _, _, [] => False
  | depth, opened, .closing :: ps => if depth = 1 then ps = [] ∧ opened = [] else 1 < depth ∧ Closes (depth - 1) opened ps
  | depth, opened, .lexeme m :: ps =>
    if m = mark "<" then Closes (depth + 1) opened ps
    else angleStep m.2 = none ∧
      match Bracket.opened? m.2, Bracket.closed? m.2 with
      | some b, _ => Closes depth (b :: opened) ps
      | none, some b => ∃ others, opened = b :: others ∧ Closes depth others ps
      | none, none => fitsArguments m = true ∧ (m.2 = ";" → opened ≠ []) ∧ Closes depth opened ps

/-- What stands between angle brackets closes none of those around it. -/
theorem closes_of_between {inside : Bool} {ps qs : List Piece} (h : Between inside ps) {depth : Nat} {opened : List Bracket}
    (hdepth : 0 < depth) (hinside : inside = true → opened ≠ []) (hqs : Closes depth opened qs) :
    Closes depth opened (ps ++ qs) := by
  induction h generalizing depth opened qs with
  | nil => exact hqs
  | @leaf inside m ps hfits hangle hopen hclose hsemicolon h ih =>
    rw [List.cons_append, Closes, if_neg, hopen, hclose]
    · exact ⟨hangle, hfits, fun hm => hinside (hsemicolon hm), ih hdepth hinside hqs⟩
    · rintro rfl
      nomatch hangle
  | @group inside b inner ps hinner h ihinner ih =>
    have hlast : Closes depth (b :: opened) (.lexeme (mark b.closer) :: (ps ++ qs)) := by
      rw [Closes, if_neg (by cases b <;> decide)]
      refine ⟨by cases b <;> decide, ?_⟩
      simp only [opened?_closer, Bracket.closed?_closer]
      exact ⟨opened, rfl, ih hdepth hinside hqs⟩
    rw [List.cons_append, List.cons_append, List.append_assoc, List.cons_append, Closes, if_neg (by cases b <;> decide)]
    refine ⟨by cases b <;> decide, ?_⟩
    simp only [Bracket.opened?_opener]
    exact ihinner hdepth (fun _ => nofun) hlast
  | @angles inside inner ps hinner h ihinner ih =>
    have hlast : Closes (depth + 1) opened (.closing :: (ps ++ qs)) := by
      rw [Closes, if_neg (by omega)]
      exact ⟨by omega, ih hdepth hinside hqs⟩
    rw [List.cons_append, List.cons_append, List.append_assoc, List.cons_append, Closes, if_pos rfl]
    exact ihinner (Nat.succ_pos depth) hinside hlast

section CloseAngle

variable {depth : Int} {opened : List Bracket} {t : Token} {ts rest : List Token}

theorem closeAngle_cons_angle {step : Int} (ht : angleStep t.text = some step) (hstep : 0 < depth + step) :
    (closeAngle depth opened (t :: ts)).map (·.tokens) = (closeAngle (depth + step) opened ts).map (·.tokens) := by
  rw [closeAngle]
  simp only [ht]
  rw [if_neg (by omega), Option.map_map]
  rfl

theorem closeAngle_cons_last {step : Int} (ht : angleStep t.text = some step) (hstep : depth + step = 0) :
    Finds (closeAngle depth [] (t :: ts)) ts := by
  rw [closeAngle]
  simp only [ht]
  rw [if_pos (by omega), if_pos (by rw [hstep]; rfl)]
  exact ⟨_, rfl, rfl⟩

theorem closeAngle_cons_opener {b : Bracket} (hangle : angleStep t.text = none) (ht : Bracket.opened? t.text = some b) :
    (closeAngle depth opened (t :: ts)).map (·.tokens) = (closeAngle depth (b :: opened) ts).map (·.tokens) := by
  rw [closeAngle]
  simp only [hangle, ht]
  rw [Option.map_map]
  rfl

theorem closeAngle_cons_closer {b : Bracket} (hangle : angleStep t.text = none) (hopen : Bracket.opened? t.text = none)
    (ht : Bracket.closed? t.text = some b) :
    (closeAngle depth (b :: opened) (t :: ts)).map (·.tokens) = (closeAngle depth opened ts).map (·.tokens) := by
  rw [closeAngle]
  simp only [hangle, hopen, ht, if_true]
  rw [Option.map_map]
  rfl

theorem closeAngle_cons_other (hangle : angleStep t.text = none) (hopen : Bracket.opened? t.text = none)
    (hclose : Bracket.closed? t.text = none) (hsemicolon : t.text = ";" → opened ≠ []) (hfits : mayStandInTypeArguments t = true) :
    (closeAngle depth opened (t :: ts)).map (·.tokens) = (closeAngle depth opened ts).map (·.tokens) := by
  have hnot : (t.text = ";" && opened.isEmpty) = false := by
    by_cases ht : t.text = ";"
    · rw [Bool.and_eq_false_imp]
      intro _
      exact List.isEmpty_eq_false_iff.mpr (hsemicolon ht)
    · rw [decide_eq_false ht, Bool.false_and]
  rw [closeAngle]
  simp only [hangle, hopen, hclose]
  rw [if_neg (by rw [hnot]; nofun), if_pos hfits, Option.map_map]
  rfl

theorem closeAngle_of_trivia {blanks : List Token} (hblanks : ∀ t ∈ blanks, t.isTrivia = true ∧ t.Shaped) :
    (closeAngle depth opened (blanks ++ ts)).map (·.tokens) = (closeAngle depth opened ts).map (·.tokens) := by
  induction blanks with
  | nil => rfl
  | cons b blanks ih =>
    obtain ⟨htrivia, hshape⟩ := hblanks b List.mem_cons_self
    have hne := fun {m : String} => ne_of_beginsOther (m := m) (hshape.beginsOther_of_trivia htrivia)
    rw [← ih fun u hu => hblanks u (List.mem_cons_of_mem _ hu)]
    refine closeAngle_cons_other ?_ ?_ ?_ (fun hm => absurd hm (hne (by decide))) ?_
    · rw [angleStep, if_neg (hne (by decide)), if_neg (hne (by decide)), if_neg (hne (by decide)), if_neg (hne (by decide))]
    · rw [Bracket.opened?, if_neg (hne (by decide)), if_neg (hne (by decide)), if_neg (hne (by decide))]
    · rw [Bracket.closed?, if_neg (hne (by decide)), if_neg (hne (by decide)), if_neg (hne (by decide))]
    · rw [mayStandInTypeArguments, htrivia]
      rfl

end CloseAngle

/-- A lexeme that fits may stand in a list of type arguments. -/
theorem mayStand_of_fits {t : Token} (h : fitsArguments t.lexeme = true) : mayStandInTypeArguments t = true := by
  simp only [fitsArguments, Token.lexeme, Bool.or_eq_true, beq_iff_eq] at h
  simp only [mayStandInTypeArguments, Token.isLiteral, Bool.or_eq_true, beq_iff_eq]
  rcases h with (((h | h) | h) | h) | h
  · exact Or.inl (Or.inl (Or.inr (Or.inl (Or.inl (Or.inl h)))))
  · exact Or.inl (Or.inl (Or.inr (Or.inl (Or.inl (Or.inr h)))))
  · exact Or.inl (Or.inl (Or.inr (Or.inl (Or.inr h))))
  · exact Or.inl (Or.inr h)
  · exact Or.inr h

/-- Closing angle brackets that meet close the last one together, or leave one open. -/
theorem closes_replicate {n depth : Nat} {opened : List Bracket} {ps : List Piece}
    (h : Closes depth opened (List.replicate (n + 1) .closing ++ ps)) :
    (depth = n + 1 ∧ ps = [] ∧ opened = []) ∨ (n + 1 < depth ∧ Closes (depth - (n + 1)) opened ps) := by
  induction n generalizing depth with
  | zero =>
    rw [List.replicate_one, List.singleton_append, Closes] at h
    split at h
    · rename_i hdepth
      exact Or.inl ⟨hdepth, h⟩
    · exact Or.inr h
  | succ n ih =>
    rw [List.replicate_succ, List.cons_append, Closes] at h
    split at h
    · nomatch h.1
    · obtain ⟨hdepth, h⟩ := h
      rcases ih h with ⟨heq, hrest⟩ | ⟨hlt, hrest⟩
      · exact Or.inl ⟨by omega, hrest⟩
      · rw [Nat.sub_sub, Nat.add_comm 1] at hrest
        exact Or.inr ⟨by omega, hrest⟩

/-- A token that stands for `n + 1` closing angle brackets. -/
theorem closeAngle_of_closings {n depth : Nat} {opened : List Bracket} {ps : List Piece} {ms : List Lexeme} {s : String}
    {rest : List Token} (hs : angleStep s = some (-((n + 1 : Nat) : Int))) (hmerges : Merges ps ms)
    (ih : ∀ {depth : Nat}, Closes depth opened ps → ∀ {ts : List Token}, Written (ms.map typed) ts rest →
      Finds (closeAngle depth opened ts) rest)
    (h : Closes depth opened (List.replicate (n + 1) .closing ++ ps)) {ts : List Token}
    (hw : Written ((mark s :: ms).map typed) ts rest) : Finds (closeAngle depth opened ts) rest := by
  obtain ⟨blanks, t, us, rfl, hblanks, _, _, _, ht, hrest⟩ := hw.uncons
  obtain ⟨_, htext⟩ := lexeme_eq_mark ht
  have hstep : angleStep t.text = some (-((n + 1 : Nat) : Int)) := by rw [htext]; exact hs
  refine .of_eq (closeAngle_of_trivia hblanks) ?_
  rcases closes_replicate h with ⟨rfl, rfl, rfl⟩ | ⟨hlt, hcloses⟩
  · cases hmerges
    rw [List.map_nil, Written.nil_iff] at hrest
    subst hrest
    exact closeAngle_cons_last hstep (by omega)
  · have hfinds := ih hcloses hrest
    rw [show ((depth - (n + 1) : Nat) : Int) = (depth : Int) + -((n + 1 : Nat) : Int) by omega] at hfinds
    exact .of_eq (closeAngle_cons_angle hstep (by omega)) hfinds

/-- The list of type arguments ends where its pieces close the last angle bracket. -/
theorem closeAngle_of_closes {ps : List Piece} {ms : List Lexeme} (hmerges : Merges ps ms) {depth : Nat} {opened : List Bracket}
    (h : Closes depth opened ps) {ts rest : List Token} (hw : Written (ms.map typed) ts rest) :
    Finds (closeAngle depth opened ts) rest := by
  induction hmerges generalizing depth opened ts with
  | nil => exact h.elim
  | @lexeme m ps ms hmerges ih =>
    obtain ⟨blanks, t, us, rfl, hblanks, _, _, _, hs, hrest⟩ := hw.uncons
    have hm : t.lexeme = m := hs
    have htext : t.text = m.2 := congrArg Prod.snd hs
    refine .of_eq (closeAngle_of_trivia hblanks) ?_
    rw [Closes] at h
    split at h
    · rename_i hless
      have hstep : angleStep t.text = some 1 := by rw [htext, hless]; decide
      exact .of_eq (closeAngle_cons_angle hstep (by omega)) (ih h hrest)
    · obtain ⟨hangle, h⟩ := h
      rw [← htext] at hangle h
      cases hopen : Bracket.opened? t.text with
      | some b =>
        rw [hopen] at h
        exact .of_eq (closeAngle_cons_opener hangle hopen) (ih h hrest)
      | none =>
        rw [hopen] at h
        cases hclose : Bracket.closed? t.text with
        | some b =>
          rw [hclose] at h
          obtain ⟨others, rfl, h⟩ := h
          exact .of_eq (closeAngle_cons_closer hangle hopen hclose) (ih h hrest)
        | none =>
          rw [hclose] at h
          obtain ⟨hfits, hsemicolon, h⟩ := h
          exact .of_eq (closeAngle_cons_other hangle hopen hclose hsemicolon (mayStand_of_fits (hm ▸ hfits))) (ih h hrest)
  | one hmerges ih => exact closeAngle_of_closings (n := 0) rfl hmerges ih h hw
  | two hmerges ih => exact closeAngle_of_closings (n := 1) rfl hmerges ih h hw
  | three hmerges ih => exact closeAngle_of_closings (n := 2) rfl hmerges ih h hw

/-- A list of type arguments is recognised and skipped as a whole. -/
theorem matchAngle_of_arguments {ms : List Lexeme} (h : TypeArguments ms) {ts rest : List Token} (hw : Written (ms.map typed) ts rest) :
    Finds (matchAngle (significant ts)) rest ∧ ∃ t us, significant ts = t :: us ∧ t.lexeme = mark "<" := by
  obtain ⟨hbetween, hmerges⟩ := h
  rename_i ps
  have hcloses : Closes 1 [] (ps ++ [.closing]) :=
    closes_of_between hbetween Nat.one_pos nofun ⟨rfl, rfl⟩
  cases hmerges with
  | lexeme hmerges =>
    obtain ⟨t, us, hsig, _, _, hs, hrest⟩ := hw.significant
    obtain ⟨_, htext⟩ := lexeme_eq_mark hs
    have hstep : angleStep t.text = some 1 := by rw [htext]; decide
    refine ⟨?_, t, us, hsig, hs⟩
    rw [hsig]
    exact .of_eq (closeAngle_cons_angle hstep (by decide)) (closeAngle_of_closes hmerges hcloses hrest)

theorem skipAngle_of_arguments {ms : List Lexeme} (h : TypeArguments ms) {ts rest : List Token} (hw : Written (ms.map typed) ts rest) :
    LeavesTail (skipAngle (significant ts)) rest := by
  obtain ⟨r, hr, hrest⟩ := (matchAngle_of_arguments h hw).1
  exact ⟨r, by rw [skipAngle, hr], hrest⟩

/-! ## Names and suffixes -/

theorem skipDotted_of_dotted {ms : List Lexeme} (h : Dotted ms) {ts rest : List Token} (hw : Written (ms.map typed) ts rest)
    (hend : ∀ m, (lexemes rest).head? = some m → m.2 ≠ ".") : (skipDotted ts).tokens = rest := by
  induction h generalizing ts with
  | nil =>
    rw [List.map_nil, Written.nil_iff] at hw
    subst hw
    rw [skipDotted]
    split
    · rename_i dot us hsig
      have hne : dot.text ≠ "." := hend _ (head?_lexemes hsig)
      rw [if_neg hne]
      rfl
    · rfl
  | cons h ih =>
    obtain ⟨dot, us, hsig, _, _, hdot, hw⟩ := hw.significant
    obtain ⟨name, vs, hsig', _, _, hname, hw⟩ := hw.significant
    rw [skipDotted]
    split
    · rename_i dot' us' heq
      obtain ⟨rfl, rfl⟩ := List.cons.inj (hsig.symm.trans heq)
      rw [if_pos (lexeme_eq_mark hdot).2]
      split
      · rename_i name' vs' heq'
        obtain ⟨rfl, rfl⟩ := List.cons.inj (hsig'.symm.trans heq')
        rw [if_pos (lexeme_eq_word hname).1]
        exact ih hw
      · rename_i heq'
        rw [hsig'] at heq'
        cases heq'
    · rename_i heq
      rw [hsig] at heq
      cases heq

/-- Suffixes are skipped one after the other. -/
theorem skipSuffixes_eq {ms : List Lexeme} (h : Suffixes ms) {ts rest : List Token} (hw : Written (ms.map typed) ts rest) :
    (skipSuffixes ts).map (·.tokens) = (skipSuffixes rest).map (·.tokens) := by
  induction h generalizing ts with
  | nil =>
    rw [List.map_nil, Written.nil_iff] at hw
    rw [hw]
  | cons h hrest ih =>
    rw [List.map_append] at hw
    obtain ⟨mid, hfirst, hsecond⟩ := hw.split
    obtain ⟨⟨r, hr, hmid⟩, t, us, hsig, ht⟩ := skipBracket_of_group h hfirst
    have hopen : headIn (significant ts) ["["] = true := by
      rw [hsig, headIn, (lexeme_eq_mark ht).2]
      rfl
    subst hmid
    rw [skipSuffixes, if_pos hopen, hr, ← ih hsecond]
    exact map_tokens_map _ fun _ => rfl

/-- Where no suffix stands, nothing is skipped. -/
theorem skipSuffixes_of_end {rest : List Token} (hend : ∀ m, (lexemes rest).head? = some m → m.2 ≠ "[") :
    Leaves (skipSuffixes rest) rest := by
  have hnot : headIn (significant rest) ["["] = false := by
    rw [headIn_significant]
    cases hm : (lexemes rest).head? with
    | none => rfl
    | some m => exact Bool.eq_false_iff.mpr fun hc => hend m hm (List.mem_singleton.mp (List.contains_iff_mem.mp hc))
  rw [skipSuffixes, if_neg (by rw [hnot]; nofun)]
  exact ⟨_, rfl, rfl⟩

theorem skipSuffixes_of_suffixes {ms : List Lexeme} (h : Suffixes ms) {ts rest : List Token} (hw : Written (ms.map typed) ts rest)
    (hend : ∀ m, (lexemes rest).head? = some m → m.2 ≠ "[") : Leaves (skipSuffixes ts) rest := by
  rw [leaves_iff, skipSuffixes_eq h hw]
  exact leaves_iff.mp (skipSuffixes_of_end hend)

/-! ## Operands and types -/

/-- Skipping a part of a type, where it stands, leaves what is behind it. -/
def Skips (part : TypePart) (ts rest : List Token) : Prop :=
  match part with
  | .simple => LeavesTail (skipSimple (significant ts)) rest
  | .operand => LeavesTail (skipOperand (significant ts)) rest
  | .joined => ∃ r, skipOperand (significant ts) = .ok r ∧ Leaves (skipMore r.tokens) rest
  | .whole => LeavesTail (skipType ts) rest

section Simple

variable {ts rest : List Token} {t : Token} {us : List Token}

theorem map_map_andThen {t : Token} {us : List Token} (r : Tail (t :: us)) :
    ((skipSuffixes r.tokens).map r.andThen).map (·.tokens) = (skipSuffixes r.tokens).map (·.tokens) := by
  cases skipSuffixes r.tokens <;> rfl

/-- Behind a group in brackets suffixes are skipped, unless it is the parameters of a function type. -/
theorem skipSimple_eq_of_group {b : Bracket} {base : List Lexeme} {mid : List Token} (h : Group b base)
    (hw : Written (base.map typed) ts mid) (harrow : b = .round → ∀ m, (lexemes mid).head? = some m → m.2 ≠ "=>") :
    (skipSimple (significant ts)).map (·.tokens) = (skipSuffixes mid).map (·.tokens) := by
  obtain ⟨hskip, t, us, hsig, ht⟩ := skipBracket_of_group h hw
  obtain ⟨_, htext⟩ := lexeme_eq_mark ht
  rw [hsig] at hskip ⊢
  obtain ⟨r, hr, rfl⟩ := hskip
  rw [skipSimple]
  cases b with
  | round =>
    replace htext : t.text = "(" := htext
    rw [if_pos htext, hr]
    simp only
    split
    · exact map_map_andThen r
    · rename_i arrow vs hsig'
      have hnot : arrow.text ≠ "=>" := harrow rfl _ (head?_lexemes hsig')
      rw [if_neg hnot]
      exact map_map_andThen r
  | curly =>
    replace htext : t.text = "\x7b" := htext
    rw [if_neg (by rw [htext]; decide), if_pos htext, hr]
    exact map_map_andThen r
  | square =>
    replace htext : t.text = "[" := htext
    rw [if_neg (by rw [htext]; decide), if_neg (by rw [htext]; decide), if_pos htext, hr]
    exact map_map_andThen r

/-- A group in brackets with its suffixes is skipped. -/
theorem skipSimple_of_group {b : Bracket} {base suffixes : List Lexeme} (h : Group b base) (hsuffixes : Suffixes suffixes)
    (hw : Written ((base ++ suffixes).map typed) ts rest) (hend : ∀ m, (lexemes rest).head? = some m → m.2 ≠ "[")
    (harrow : b = .round → suffixes = [] → ∀ m, (lexemes rest).head? = some m → m.2 ≠ "=>") :
    LeavesTail (skipSimple (significant ts)) rest := by
  rw [List.map_append] at hw
  obtain ⟨mid, hfirst, hsecond⟩ := hw.split
  rw [leavesTail_iff, skipSimple_eq_of_group h hfirst, ← leaves_iff]
  · exact skipSuffixes_of_suffixes hsuffixes hsecond hend
  · -- behind the group stands a suffix, or what follows the type
    intro hround m hm
    cases hsuffixes with
    | nil =>
      rw [List.map_nil, Written.nil_iff] at hsecond
      exact harrow hround rfl m (hsecond ▸ hm)
    | cons hgroup _ =>
      obtain ⟨_⟩ := hgroup
      rw [hsecond.lexemes_eq] at hm
      rw [← Option.some.inj hm]
      decide

/-- A token of another class than punctuation is no mark. -/
theorem text_ne_of_kind (hshape : t.Shaped) (hkind : t.kind ≠ .punctuation) {m : String} (hm : beginsOther m.toList = false) :
    t.text ≠ m := ne_of_beginsOther (beginsOther_of_shape hshape hkind) hm

/-- A name with its arguments, if it has any, whatever its words are. -/
def NameText (ms : List Lexeme) : Prop :=
  ∃ x dots arguments, ms = word x :: dots ++ arguments ∧ Dotted dots ∧ (arguments = [] ∨ TypeArguments arguments)

theorem Named.text {ms : List Lexeme} (h : Named ms) : NameText ms := by
  cases h with
  | plain hname hdots => exact ⟨_, _, [], (List.append_nil _).symm, hdots, .inl rfl⟩
  | applied hname hdots harguments => exact ⟨_, _, _, rfl, hdots, .inr harguments⟩

/-- The name is followed by its arguments, if it has any. -/
theorem arguments_of_name {ms : List Lexeme} (h : NameText ms) {mid : List Token} (hw : Written (ms.map typed) ts mid)
    (hmid : ∀ m, (lexemes mid).head? = some m → m.2 ≠ "." ∧ m.2 ≠ "<") :
    ∃ t us, significant ts = t :: us ∧ t.Shaped ∧ t.kind = .identifier ∧
      ∀ named : Tail (t :: us), named.tokens = (skipDotted us).tokens → ∃ r : Tail (t :: us), r.tokens = mid ∧
        (if headIn (significant named.tokens) ["<"] then
          (skipAngle (significant named.tokens)).map (·.widen ((significant_suffix named.tokens).trans named.suffix))
        else .ok named) = .ok r := by
  obtain ⟨x, dots, arguments, rfl, hdots, rfl | harguments⟩ := h
  · rw [List.append_nil] at hw
    obtain ⟨t, us, hsig, _, hshape, ht, hrest⟩ := hw.significant
    have hdot := skipDotted_of_dotted hdots hrest fun m hm => (hmid m hm).1
    refine ⟨t, us, hsig, hshape, (lexeme_eq_word ht).1, fun named hnamed => ⟨named, hnamed.trans hdot, if_neg ?_⟩⟩
    rw [hnamed, hdot, headIn_significant]
    cases hm : (lexemes mid).head? with
    | none => nofun
    | some m => exact fun hc => (hmid m hm).2 (List.mem_singleton.mp (List.contains_iff_mem.mp hc))
  · rw [List.map_append, List.map_cons] at hw
    obtain ⟨after, hfirst, hsecond⟩ := hw.split
    obtain ⟨t, us, hsig, _, hshape, ht, hrest⟩ := hfirst.significant
    obtain ⟨_, t', us', hsig', ht'⟩ := matchAngle_of_arguments harguments hsecond
    have hdot : (skipDotted us).tokens = after := by
      refine skipDotted_of_dotted hdots hrest fun m hm => ?_
      rw [head?_lexemes hsig'] at hm
      rw [← Option.some.inj hm, ht']
      decide
    have hskip := skipAngle_of_arguments harguments hsecond
    refine ⟨t, us, hsig, hshape, (lexeme_eq_word ht).1, fun named hnamed => ?_⟩
    rw [← hdot, ← hnamed] at hskip hsig'
    obtain ⟨r, hr, hmid'⟩ := hskip
    refine ⟨r.widen ((significant_suffix named.tokens).trans named.suffix), hmid', ?_⟩
    have hopen : headIn (significant named.tokens) ["<"] = true := by
      rw [hsig', headIn, (lexeme_eq_mark ht').2]
      rfl
    rw [if_pos hopen, hr]
    rfl

/-- What is skipped behind a name and its arguments: the type of a type predicate, otherwise array suffixes. -/
def afterName (mid : List Token) : Except Refusal (List Token) :=
  match significant mid with
  | [] => (skipSuffixes mid).map (·.tokens)
  | w :: vs => if w.text = "is" && w.kind = .identifier then (skipType vs).map (·.tokens) else (skipSuffixes mid).map (·.tokens)

theorem afterName_of_is {mid : List Token} {w : Token} {vs : List Token} (hsig : significant mid = w :: vs) (hw : w.lexeme = word "is") :
    afterName mid = (skipType vs).map (·.tokens) := by
  rw [afterName, hsig]
  exact if_pos (by rw [(lexeme_eq_word hw).1, (lexeme_eq_word hw).2]; rfl)

theorem afterName_of_other {mid : List Token} (h : ∀ m, (lexemes mid).head? = some m → m ≠ word "is") :
    afterName mid = (skipSuffixes mid).map (·.tokens) := by
  rw [afterName]
  split
  · rfl
  · rename_i w vs hsig
    rw [if_neg]
    rw [Bool.and_eq_true, decide_eq_true_eq, decide_eq_true_eq]
    exact fun hboth => h _ (head?_lexemes hsig) (Prod.ext hboth.2 hboth.1)

theorem skipSimple_eq_of_name {ms : List Lexeme} (h : NameText ms) {mid : List Token} (hw : Written (ms.map typed) ts mid)
    (hmid : ∀ m, (lexemes mid).head? = some m → m.2 ≠ "." ∧ m.2 ≠ "<") :
    (skipSimple (significant ts)).map (·.tokens) = afterName mid := by
  obtain ⟨t, us, hsig, hshape, hid, harguments⟩ := arguments_of_name h hw hmid
  obtain ⟨r, hr, happlied⟩ := harguments (skipDotted us).afterHead rfl
  have hne := fun {m : String} => text_ne_of_kind (m := m) hshape (by rw [hid]; decide)
  have hliteral : t.isLiteral = false := by rw [Token.isLiteral, hid]; rfl
  rw [hsig, skipSimple, if_neg (hne (by decide)), if_neg (hne (by decide)), if_neg (hne (by decide)), hliteral,
    if_neg (by decide), decide_eq_false (hne (m := "-") (by decide)), Bool.false_and, if_neg (by decide), if_pos hid]
  simp only
  rw [happlied]
  simp only
  subst hr
  rw [afterName]
  split
  · rename_i hnil
    simp only [hnil]
    exact map_map_andThen r
  · rename_i w vs hcons
    simp only [hcons]
    split
    · cases skipType vs <;> rfl
    · exact map_map_andThen r

/-- Behind the name and its arguments, a type predicate goes on with its type; otherwise array suffixes follow. -/
theorem skipSimple_of_named {ms : List Lexeme} (h : Named ms) {mid : List Token} (hw : Written (ms.map typed) ts mid)
    (hmid : ∀ m, (lexemes mid).head? = some m → m.2 ≠ "." ∧ m.2 ≠ "<")
    (hrest : (∃ w vs, significant mid = w :: vs ∧ w.lexeme = word "is" ∧ LeavesTail (skipType vs) rest) ∨
      ((∀ m, (lexemes mid).head? = some m → m ≠ word "is") ∧ Leaves (skipSuffixes mid) rest)) :
    LeavesTail (skipSimple (significant ts)) rest := by
  rw [leavesTail_iff, skipSimple_eq_of_name h.text hw hmid]
  rcases hrest with ⟨w, vs, hsig, hword, hskip⟩ | ⟨hnot, hskip⟩
  · rw [afterName_of_is hsig hword]
    exact leavesTail_iff.mp hskip
  · rw [afterName_of_other hnot]
    exact leaves_iff.mp hskip

theorem skipSimple_eq_of_literal {m : Lexeme} {mid : List Token} (hm : isLiteralKind m.1 = true) (hw : Written [typed m] ts mid) :
    (skipSimple (significant ts)).map (·.tokens) = (skipSuffixes mid).map (·.tokens) := by
  obtain ⟨t, us, hsig, _, hshape, ht, hrest⟩ := hw.significant
  obtain rfl := Written.nil_iff.mp hrest
  have hkind : isLiteralKind t.kind = true := by
    rw [show t.kind = m.1 from congrArg Prod.fst ht]
    exact hm
  have hne := fun {m : String} => text_ne_of_kind (m := m) hshape (by intro hk; rw [hk] at hkind; nomatch hkind)
  have hliteral : t.isLiteral = true := by
    rw [Token.isLiteral]
    rw [isLiteralKind] at hkind
    rw [hkind, Bool.true_or]
  rw [hsig, skipSimple, if_neg (hne (by decide)), if_neg (hne (by decide)), if_neg (hne (by decide)), if_pos hliteral]
  cases skipSuffixes us <;> rfl

theorem skipSimple_of_literal {m : Lexeme} {suffixes : List Lexeme} (hm : isLiteralKind m.1 = true) (hsuffixes : Suffixes suffixes)
    (hw : Written ((m :: suffixes).map typed) ts rest) (hend : ∀ m, (lexemes rest).head? = some m → m.2 ≠ "[") :
    LeavesTail (skipSimple (significant ts)) rest := by
  obtain ⟨mid, hfirst, hsecond⟩ : ∃ mid, Written [typed m] ts mid ∧ Written (suffixes.map typed) mid rest := Written.split hw
  rw [leavesTail_iff, skipSimple_eq_of_literal hm hfirst]
  exact leaves_iff.mp (skipSuffixes_of_suffixes hsuffixes hsecond hend)

theorem skipSimple_of_negative {m : Lexeme} (hm : m.1 = .number) (hw : Written ([mark "-", m].map typed) ts rest) :
    LeavesTail (skipSimple (significant ts)) rest := by
  obtain ⟨t, us, hsig, _, _, ht, hw⟩ := hw.significant
  obtain ⟨hkind, htext⟩ := lexeme_eq_mark ht
  obtain ⟨t', us', hsig', _, _, ht', hw⟩ := hw.significant
  have hkind' : t'.kind = .number := (congrArg Prod.fst ht' : t'.kind = m.1).trans hm
  rw [List.map_nil, Written.nil_iff] at hw
  have hliteral : t.isLiteral = false := by rw [Token.isLiteral, hkind]; rfl
  have hminus : (t.text = "-" && headKind (significant us) = some .number) = true := by
    rw [htext, hsig', headKind, List.head?_cons, Option.map_some, hkind']
    rfl
  rw [hsig, skipSimple, if_neg (by rw [htext]; decide), if_neg (by rw [htext]; decide), if_neg (by rw [htext]; decide),
    hliteral, if_neg (by decide), if_pos hminus]
  refine ⟨_, rfl, ?_⟩
  show (significant us).tail = rest
  rw [hsig', ← hw]
  rfl

end Simple

/-! ### What a type begins with and ends before -/

/-- The first lexeme of an operand. -/
theorem text_head {part : TypePart} {bare greedy : Bool} {ms : List Lexeme} (h : TypeText part bare greedy ms) :
    ∃ m ms', ms = m :: ms' ∧ (part ≠ .whole → m.1 = .punctuation → m.2 ∈ ["(", "[", "\x7b", "-", "<"]) ∧
      (part = .simple → (m.1 = .identifier → m.2 ∉ typePrefixes) ∧ (m.1 = .punctuation → m.2 ≠ "<")) := by
  have hgroup : ∀ {b : Bracket} {ms : List Lexeme}, Group b ms → ∃ ms', ms = mark b.opener :: ms' := by
    rintro b _ ⟨hinner⟩
    exact ⟨_, rfl⟩
  have hnamed : ∀ {ms : List Lexeme}, Named ms → ∃ name ms', ms = word name :: ms' ∧ name ∉ typePrefixes := by
    rintro _ (⟨hname, _⟩ | ⟨hname, _, _⟩)
    · exact ⟨_, _, rfl, hname⟩
    · exact ⟨_, _, rfl, hname⟩
  induction h with
  | based hbase hsuffixes =>
    cases hbase with
    | named h =>
      obtain ⟨name, ms', rfl, hname⟩ := hnamed h
      exact ⟨_, _, rfl, fun _ => nofun, fun _ => ⟨fun _ => hname, nofun⟩⟩
    | literal h =>
      refine ⟨_, _, rfl, fun _ hk => ?_, fun _ => ⟨fun hk => ?_, fun hk => ?_⟩⟩ <;> rw [hk] at h <;> nomatch h
    | round h =>
      obtain ⟨ms', rfl⟩ := hgroup h
      exact ⟨_, _, rfl, fun _ _ => by decide, fun _ => ⟨nofun, fun _ => by decide⟩⟩
    | square h =>
      obtain ⟨ms', rfl⟩ := hgroup h
      exact ⟨_, _, rfl, fun _ _ => by decide, fun _ => ⟨nofun, fun _ => by decide⟩⟩
    | curly h =>
      obtain ⟨ms', rfl⟩ := hgroup h
      exact ⟨_, _, rfl, fun _ _ => by decide, fun _ => ⟨nofun, fun _ => by decide⟩⟩
  | negative h => exact ⟨_, _, rfl, fun _ _ => by decide, fun _ => ⟨nofun, fun _ => by decide⟩⟩
  | function h _ _ =>
    obtain ⟨ms', rfl⟩ := hgroup h
    exact ⟨_, _, rfl, fun _ _ => by decide, fun _ => ⟨nofun, fun _ => by decide⟩⟩
  | predicate h _ _ =>
    obtain ⟨name, ms', rfl, hname⟩ := hnamed h
    exact ⟨_, _, rfl, fun _ => nofun, fun _ => ⟨fun _ => hname, nofun⟩⟩
  | simple h ih =>
    obtain ⟨m, ms', rfl, hm, _⟩ := ih
    exact ⟨m, ms', rfl, fun _ => hm nofun, nofun⟩
  | prefixed hname hms h ih => exact ⟨_, _, rfl, fun _ => nofun, nofun⟩
  | generic hparameters h ih =>
    obtain ⟨_, hmerges⟩ := hparameters
    cases hmerges
    exact ⟨_, _, rfl, fun _ _ => by decide, nofun⟩
  | operand h ih =>
    obtain ⟨m, ms', rfl, hm, _⟩ := ih
    exact ⟨m, ms', rfl, fun _ => hm nofun, nofun⟩
  | join hop h hothers ih _ =>
    obtain ⟨m, ms', rfl, hm, _⟩ := ih
    exact ⟨m, _, rfl, fun _ => hm nofun, nofun⟩
  | conditional hchecked hbound hyes hno ih _ _ _ =>
    obtain ⟨m, ms', rfl, hm, _⟩ := ih
    exact ⟨m, _, rfl, fun _ => hm nofun, nofun⟩
  | whole h ih =>
    obtain ⟨m, ms', rfl, hm, _⟩ := ih
    exact ⟨m, ms', rfl, fun hne => absurd rfl hne, nofun⟩
  | leading hop h ih => exact ⟨_, _, rfl, fun hne => absurd rfl hne, nofun⟩

section EndsBefore

variable {part : TypePart} {bare greedy : Bool} {rest : List Token}

theorem goesOn_eq_false {m : Lexeme} (h : goesOn part bare greedy m = false) :
    m.2 ≠ "[" ∧ m.2 ≠ "<" ∧ m.2 ≠ "." ∧ m ≠ word "is" ∧ (bare = true → m.2 ≠ "=>") ∧
      ((greedy || part == .joined || part == .whole) = true → m.2 ≠ "|" ∧ m.2 ≠ "&" ∧ m ≠ word "extends") := by
  simp only [goesOn, Bool.or_eq_false_iff, Bool.and_eq_false_imp, List.contains_eq_mem, decide_eq_false_iff_not, List.mem_cons,
    List.not_mem_nil, or_false, not_or, beq_eq_false_iff_ne] at h
  obtain ⟨⟨⟨⟨h₁, h₂, h₃⟩, h₄⟩, h₅⟩, h₆⟩ := h
  exact ⟨h₁, h₂, h₃, h₄, h₅, fun hc => ⟨(h₆ hc).1.1, (h₆ hc).1.2, (h₆ hc).2⟩⟩

/-- The part of a type ends before a symbol that does not go on with it. -/
theorem endsBefore_of_written {s : Sym} {ss : List Sym} {ts : List Token} (h : Written (s :: ss) ts rest)
    (hs : goesOn part bare greedy s.lexeme = false) : EndsBefore part bare greedy ts := by
  intro m hm
  rw [h.lexemes_eq] at hm
  rw [← Option.some.inj hm]
  exact hs

/-- What goes on with a type goes on with a greedy part, or a part that is joined. -/
def isOpen (part : TypePart) (greedy : Bool) : Bool := greedy || part == .joined || part == .whole

theorem isOpen_joined (greedy : Bool) : isOpen .joined greedy = true := by cases greedy <;> rfl

theorem isOpen_whole (greedy : Bool) : isOpen .whole greedy = true := by cases greedy <;> rfl

/-- What ends any type ends this one. -/
theorem EndsBefore.of_full (h : EndsBefore .whole true true rest) : EndsBefore .whole bare greedy rest := by
  intro m hm
  have hgo := h m hm
  simp only [goesOn, Bool.or_eq_false_iff, Bool.and_eq_false_imp] at hgo ⊢
  exact ⟨⟨hgo.1.1, fun _ => hgo.1.2 trivial⟩, fun _ => hgo.2 rfl⟩

theorem EndsBefore.of_isOpen {part' : TypePart} {greedy' : Bool} (h : EndsBefore part bare greedy rest)
    (hopen : isOpen part' greedy' = true → isOpen part greedy = true) : EndsBefore part' bare greedy' rest := by
  intro m hm
  have hgo := h m hm
  rw [goesOn, Bool.or_eq_false_iff] at hgo
  rw [goesOn, Bool.or_eq_false_iff, Bool.and_eq_false_imp]
  exact ⟨hgo.1, fun hc => (Bool.and_eq_false_imp.mp hgo.2) (hopen hc)⟩

end EndsBefore

/-! ### Skipping -/

section Skipping

variable {bare greedy : Bool} {ts rest : List Token}

/-- Nothing is joined to an operand before a lexeme that joins none. -/
theorem skipMore_of_stop (h : ∀ m, (lexemes rest).head? = some m → m.2 ≠ "|" ∧ m.2 ≠ "&" ∧ m ≠ word "extends") :
    Leaves (skipMore rest) rest := by
  rw [skipMore]
  split
  · exact ⟨_, rfl, rfl⟩
  · rename_i t us hsig
    obtain ⟨hbar, hand, hextends⟩ := h _ (head?_lexemes hsig)
    have hjoin : (t.text = "|" || t.text = "&") = false := by
      rw [Bool.or_eq_false_iff]
      exact ⟨decide_eq_false hbar, decide_eq_false hand⟩
    rw [if_neg (by rw [hjoin]; decide), if_neg]
    · exact ⟨_, rfl, rfl⟩
    · rw [Bool.and_eq_true, decide_eq_true_eq, decide_eq_true_eq]
      exact fun hboth => hextends (Prod.ext hboth.2 hboth.1)

/-- Nothing is joined to an operand before what ends a type. -/
theorem skipMore_of_end {part : TypePart} (h : EndsBefore part bare greedy rest) (hopen : isOpen part greedy = true) :
    Leaves (skipMore rest) rest :=
  skipMore_of_stop fun m hm => (goesOn_eq_false (h m hm)).2.2.2.2.2 hopen

/-- An operand that begins neither with a word before it nor with type parameters is skipped as such. -/
theorem skipOperand_eq_skipSimple {m : Lexeme} {ms : List Lexeme} (hname : m.1 = .identifier → m.2 ∉ typePrefixes)
    (hmark : m.1 = .punctuation → m.2 ≠ "<") (hw : Written ((m :: ms).map typed) ts rest) :
    skipOperand (significant ts) = skipSimple (significant ts) := by
  obtain ⟨t, us, hsig, _, hshape, ht, _⟩ := hw.significant
  have hkind : t.kind = m.1 := congrArg Prod.fst ht
  have htext : t.text = m.2 := congrArg Prod.snd ht
  rw [hsig, skipOperand, if_neg, if_neg]
  · by_cases hk : t.kind = .punctuation
    · rw [htext]
      exact hmark (hkind ▸ hk)
    · exact text_ne_of_kind hshape hk (by decide)
  · rw [Bool.and_eq_true, Bool.and_eq_true, decide_eq_true_eq, List.contains_iff_mem, htext, hkind]
    exact fun hall => hname hall.1.1 hall.1.2

/-- Behind a word before it, an operand is skipped as it is without the word. -/
theorem skipOperand_of_prefixed {name : String} {ms : List Lexeme} (hname : name ∈ typePrefixes) (hms : beginsPrefixed ms = true)
    (hw : Written ((word name :: ms).map typed) ts rest) :
    ∃ us, Written (ms.map typed) us rest ∧ ∃ f : Tail (significant us) → Tail (significant ts),
      (∀ r, (f r).tokens = r.tokens) ∧ skipOperand (significant ts) = (skipOperand (significant us)).map f := by
  obtain ⟨t, us, hsig, _, _, ht, hrest⟩ := hw.significant
  obtain ⟨hkind, htext⟩ := lexeme_eq_word ht
  have hlexemes := hrest.lexemes_eq
  have hnext : (t.kind = .identifier && typePrefixes.contains t.text &&
      (headKind (significant us) = some .identifier || headKind (significant us) = some .string ||
        headIn (significant us) ["(", "[", "\x7b", "<"])) = true := by
    rw [headKind_significant, headIn_significant, hlexemes]
    cases ms with
    | nil => nomatch hms
    | cons m ms =>
      rw [beginsPrefixed, List.head?_cons, Option.any_some] at hms
      have hmem : typePrefixes.contains t.text = true := List.contains_iff_mem.mpr (htext ▸ hname)
      rw [hkind, hmem]
      simp only [List.map_cons, List.cons_append, List.head?_cons, Option.map_some, Option.any_some, typed]
      simp only [Bool.or_eq_true, beq_iff_eq] at hms
      simp only [decide_true, Bool.true_and, Bool.or_eq_true, decide_eq_true_eq, Option.some.injEq]
      exact hms
  refine ⟨us, hrest, ?_⟩
  rw [hsig, skipOperand, if_pos hnext]
  exact ⟨_, fun _ => rfl, rfl⟩

/-- Behind type parameters, an operand is skipped as it is without them. -/
theorem skipOperand_of_generic {parameters ms : List Lexeme} (hparameters : TypeArguments parameters)
    (hw : Written ((parameters ++ ms).map typed) ts rest) :
    ∃ us, Written (ms.map typed) us rest ∧ ∃ f : Tail (significant us) → Tail (significant ts),
      (∀ r, (f r).tokens = r.tokens) ∧ skipOperand (significant ts) = (skipSimple (significant us)).map f := by
  rw [List.map_append] at hw
  obtain ⟨mid, hfirst, hsecond⟩ := hw.split
  have hangle := skipAngle_of_arguments hparameters hfirst
  obtain ⟨_, t, us, hsig, ht⟩ := matchAngle_of_arguments hparameters hfirst
  obtain ⟨hkind, htext⟩ := lexeme_eq_mark ht
  rw [hsig] at hangle ⊢
  obtain ⟨r, hr, rfl⟩ := hangle
  refine ⟨r.tokens, hsecond, ?_⟩
  rw [skipOperand, if_neg (by simp [hkind]), if_pos htext, hr]
  exact ⟨_, fun _ => rfl, rfl⟩

/-- A function type is skipped with its result. -/
theorem skipSimple_of_function {parameters result : List Lexeme} (h : Group .round parameters)
    (hw : Written ((parameters ++ mark "=>" :: result).map typed) ts rest) :
    ∃ us, Written (result.map typed) us rest ∧ ∃ f : Tail us → Tail (significant ts),
      (∀ r, (f r).tokens = r.tokens) ∧ skipSimple (significant ts) = (skipType us).map f := by
  rw [List.map_append, List.map_cons] at hw
  obtain ⟨mid, hfirst, hsecond⟩ := hw.split
  obtain ⟨arrow, us, harrow, _, _, hlex, hrest⟩ := hsecond.significant
  obtain ⟨hskip, t, vs, hsig, ht⟩ := skipBracket_of_group h hfirst
  refine ⟨us, hrest, ?_⟩
  rw [hsig] at hskip ⊢
  obtain ⟨r, hr, rfl⟩ := hskip
  have hopen : t.text = "(" := (lexeme_eq_mark ht).2
  rw [skipSimple, if_pos hopen, hr]
  simp only
  split
  · rename_i hnil
    rw [harrow] at hnil
    cases hnil
  · rename_i arrow' us' hcons
    obtain ⟨rfl, rfl⟩ := List.cons.inj (harrow.symm.trans hcons)
    rw [if_pos (lexeme_eq_mark hlex).2]
    exact ⟨_, fun _ => rfl, rfl⟩

/-- Behind a mark that joins operands, one more is skipped, and then what is joined to that. -/
theorem skipMore_eq_bind {op : String} {t : Token} {us : List Token} (hop : op ∈ ["|", "&"]) (hsig : significant ts = t :: us)
    (ht : t.lexeme = mark op) :
    (skipMore ts).map (·.tokens) = (skipOperand (significant us)).bind fun r => (skipMore r.tokens).map (·.tokens) := by
  obtain ⟨_, htext⟩ := lexeme_eq_mark ht
  have hjoin : (t.text = "|" || t.text = "&") = true := by
    rw [htext]
    rcases List.mem_cons.mp hop with rfl | hop
    · rfl
    · rw [List.mem_singleton.mp hop]
      rfl
  rw [skipMore]
  split
  · rename_i hnil
    rw [hsig] at hnil
    cases hnil
  · rename_i t' us' hcons
    obtain ⟨rfl, rfl⟩ := List.cons.inj (hsig.symm.trans hcons)
    rw [if_pos hjoin, show skipOperand (afterToken t us).tokens = skipOperand (significant us) from rfl]
    cases skipOperand (significant us) with
    | error e => rfl
    | ok r => exact map_tokens_map _ fun _ => rfl

theorem skipMore_eq_of_join {op : String} {t : Token} {us mid : List Token} (hop : op ∈ ["|", "&"]) (hsig : significant ts = t :: us)
    (ht : t.lexeme = mark op) (hskip : LeavesTail (skipOperand (significant us)) mid) :
    (skipMore ts).map (·.tokens) = (skipMore mid).map (·.tokens) := by
  obtain ⟨r, hr, rfl⟩ := hskip
  rw [skipMore_eq_bind hop hsig ht, hr]
  rfl

/-- An operand is joined to the one before it. -/
theorem skipMore_of_join {op : String} {t : Token} {us : List Token} (hop : op ∈ ["|", "&"]) (hsig : significant ts = t :: us)
    (ht : t.lexeme = mark op) (hskip : ∃ r, skipOperand (significant us) = .ok r ∧ Leaves (skipMore r.tokens) rest) :
    Leaves (skipMore ts) rest := by
  obtain ⟨r, hr, hmore⟩ := hskip
  rw [leaves_iff] at hmore ⊢
  rw [skipMore_eq_of_join hop hsig ht ⟨r, hr, rfl⟩, hmore]

/-- A condition on the operand before it: the second arm decides what is left. -/
theorem skipMore_eq_of_condition {t q c : Token} {us vs ws mid mid' : List Token} (hsig : significant ts = t :: us)
    (ht : t.lexeme = word "extends") (hbound : LeavesTail (skipOperand (significant us)) mid) (hq : significant mid = q :: vs)
    (hqlex : q.lexeme = mark "?") (hyes : LeavesTail (skipType vs) mid') (hc : significant mid' = c :: ws) (hclex : c.lexeme = mark ":") :
    (skipMore ts).map (·.tokens) = (skipType ws).bind fun r => (skipMore r.tokens).map (·.tokens) := by
  obtain ⟨hkind, htext⟩ := lexeme_eq_word ht
  obtain ⟨r, hr, rfl⟩ := hbound
  obtain ⟨r₁, hr₁, rfl⟩ := hyes
  rw [skipMore]
  split
  · rename_i hnil
    rw [hsig] at hnil
    cases hnil
  rename_i t' us' hcons
  obtain ⟨rfl, rfl⟩ := List.cons.inj (hsig.symm.trans hcons)
  have hr' : skipOperand (afterToken t us).tokens = .ok r := hr
  rw [if_neg (by rw [htext]; decide), if_pos (by rw [htext, hkind]; rfl), hr']
  simp only
  split
  · rename_i hnil
    rw [hq] at hnil
    cases hnil
  rename_i q' vs' hcons'
  obtain ⟨rfl, rfl⟩ := List.cons.inj (hq.symm.trans hcons')
  rw [if_pos (lexeme_eq_mark hqlex).2, hr₁]
  simp only
  split
  · rename_i hnil
    rw [hc] at hnil
    cases hnil
  rename_i c' ws' hcons''
  obtain ⟨rfl, rfl⟩ := List.cons.inj (hc.symm.trans hcons'')
  rw [if_pos (lexeme_eq_mark hclex).2]
  cases skipType ws with
  | error e => rfl
  | ok r₂ => exact map_tokens_map _ fun _ => rfl

theorem skipMore_of_condition {bound yes no : List Lexeme}
    (hw : Written ((word "extends" :: (bound ++ mark "?" :: (yes ++ mark ":" :: no))).map typed) ts rest)
    (hbound : ∀ us mid, Written (bound.map typed) us mid → (∀ m, (lexemes mid).head? = some m → m = mark "?") →
      LeavesTail (skipOperand (significant us)) mid)
    (hyes : ∀ us mid, Written (yes.map typed) us mid → (∀ m, (lexemes mid).head? = some m → m = mark ":") →
      LeavesTail (skipType us) mid)
    (hno : ∀ us, Written (no.map typed) us rest → LeavesTail (skipType us) rest) (hend : Leaves (skipMore rest) rest) :
    Leaves (skipMore ts) rest := by
  obtain ⟨t, us, hsig, _, _, ht, hw⟩ := hw.significant
  rw [List.map_append, List.map_cons, List.map_append, List.map_cons] at hw
  obtain ⟨mid, hboundw, hw⟩ := hw.split
  obtain ⟨q, vs, hq, _, _, hqlex, hw'⟩ := hw.significant
  obtain ⟨mid', hyesw, hw''⟩ := hw'.split
  obtain ⟨c, ws, hc, _, _, hclex, hnow⟩ := hw''.significant
  have hbound' : LeavesTail (skipOperand (significant us)) mid := hbound us mid hboundw fun m hm => by
    rw [head?_lexemes hq] at hm
    exact (Option.some.inj hm) ▸ hqlex
  have hyes' : LeavesTail (skipType vs) mid' := hyes vs mid' hyesw fun m hm => by
    rw [head?_lexemes hc] at hm
    exact (Option.some.inj hm) ▸ hclex
  obtain ⟨r, hr, rfl⟩ := hno ws hnow
  rw [leaves_iff, skipMore_eq_of_condition hsig ht hbound' hq hqlex hyes' hc hclex, hr]
  exact leaves_iff.mp hend

/-- The first operand of a type begins at once, if no mark leads it. -/
theorem firstOperand_of_head {m : Lexeme} {ms : List Lexeme} (hhead : m.1 = .punctuation → m.2 ∉ ["|", "&"])
    (hw : Written ((m :: ms).map typed) ts rest) : (firstOperand ts).tokens = significant ts := by
  obtain ⟨t, us, hsig, _, hshape, ht, _⟩ := hw.significant
  have hkind : t.kind = m.1 := congrArg Prod.fst ht
  have htext : t.text = m.2 := congrArg Prod.snd ht
  have hnot : headIn (significant ts) ["|", "&"] = false := by
    rw [hsig, headIn, Bool.eq_false_iff, Ne, List.contains_iff_mem]
    intro hmem
    by_cases hk : t.kind = .punctuation
    · exact hhead (hkind ▸ hk) (htext ▸ hmem)
    · have hne := fun {m : String} => text_ne_of_kind (m := m) hshape hk
      rcases List.mem_cons.mp hmem with hmem | hmem
      · exact hne (by decide) hmem
      · exact hne (by decide) (List.mem_singleton.mp hmem)
  have hnot' : headIn (Rest.whole ts).significant.tokens ["|", "&"] = false := hnot
  rw [firstOperand, hnot', if_neg (by nofun)]
  rfl

/-- The first operand of a type begins behind the mark that leads it. -/
theorem firstOperand_of_leading {op : String} {t : Token} {us : List Token} (hop : op ∈ ["|", "&"]) (hsig : significant ts = t :: us)
    (ht : t.lexeme = mark op) : (firstOperand ts).tokens = significant us := by
  have hlead : headIn (Rest.whole ts).significant.tokens ["|", "&"] = true := by
    show headIn (significant ts) _ = true
    rw [hsig, headIn, (lexeme_eq_mark ht).2]
    exact List.contains_iff_mem.mpr hop
  rw [firstOperand, hlead, if_pos rfl]
  show significant (significant ts).tail = significant us
  rw [hsig, List.tail_cons]

/-- A type is skipped as its first operand and what is joined to that. -/
theorem skipType_eq_bind {us : List Token} (hfirst : (firstOperand ts).tokens = us) :
    (skipType ts).map (·.tokens) = (skipOperand us).bind fun r => (skipMore r.tokens).map (·.tokens) := by
  subst hfirst
  rw [skipType]
  cases skipOperand (firstOperand ts).tokens with
  | error e => rfl
  | ok r =>
    show (Except.map _ (skipMore r.tokens)).map _ = (skipMore r.tokens).map _
    cases skipMore r.tokens <;> rfl

theorem skipType_eq_of_first {us mid : List Token} (hfirst : (firstOperand ts).tokens = us) (h : LeavesTail (skipOperand us) mid) :
    (skipType ts).map (·.tokens) = (skipMore mid).map (·.tokens) := by
  obtain ⟨r, hr, rfl⟩ := h
  rw [skipType_eq_bind hfirst, hr]
  rfl

theorem skipType_of_first {us : List Token} (hfirst : (firstOperand ts).tokens = us)
    (h : ∃ r, skipOperand us = .ok r ∧ Leaves (skipMore r.tokens) rest) : LeavesTail (skipType ts) rest := by
  subst hfirst
  obtain ⟨r, hr, hmore⟩ := h
  rw [skipType, hr]
  exact hmore.mapTail _ fun _ => rfl

end Skipping

/-- Where a part of a type stands, it is skipped, and nothing else. -/
theorem skips_of_text {part : TypePart} {bare greedy : Bool} {ms : List Lexeme} (h : TypeText part bare greedy ms)
    {ts rest : List Token} (hw : Written (ms.map typed) ts rest) (hend : EndsBefore part bare greedy rest) : Skips part ts rest := by
  induction h generalizing ts rest with
  | @based bare base suffixes hbase hsuffixes =>
    have hbracket : ∀ m, (lexemes rest).head? = some m → m.2 ≠ "[" := fun m hm => (goesOn_eq_false (hend m hm)).1
    cases hbase with
    | named h =>
      rw [List.map_append] at hw
      obtain ⟨mid, hfirst, hsecond⟩ := hw.split
      have hmid : ∀ m, (lexemes mid).head? = some m → m.2 ≠ "." ∧ m.2 ≠ "<" ∧ m ≠ word "is" := by
        intro m hm
        cases hsuffixes with
        | nil =>
          rw [List.map_nil, Written.nil_iff] at hsecond
          subst hsecond
          obtain ⟨_, hless, hpoint, his, _⟩ := goesOn_eq_false (hend m hm)
          exact ⟨hpoint, hless, his⟩
        | cons hgroup _ =>
          obtain ⟨_⟩ := hgroup
          rw [hsecond.lexemes_eq] at hm
          rw [← Option.some.inj hm]
          decide
      exact skipSimple_of_named h hfirst (fun m hm => ⟨(hmid m hm).1, (hmid m hm).2.1⟩)
        (Or.inr ⟨fun m hm => (hmid m hm).2.2, skipSuffixes_of_suffixes hsuffixes hsecond hbracket⟩)
    | literal h => exact skipSimple_of_literal h hsuffixes hw hbracket
    | round h =>
      refine skipSimple_of_group h hsuffixes hw hbracket fun _ hnil m hm => ?_
      exact (goesOn_eq_false (hend m hm)).2.2.2.2.1 (by rw [hnil]; rfl)
    | square h => exact skipSimple_of_group h hsuffixes hw hbracket fun hround => absurd hround (by decide)
    | curly h => exact skipSimple_of_group h hsuffixes hw hbracket fun hround => absurd hround (by decide)
  | negative h => exact skipSimple_of_negative h hw
  | function h hresult ih =>
    obtain ⟨us, hresultw, f, hf, hskip⟩ := skipSimple_of_function h hw
    have hdone : LeavesTail (skipType us) rest := ih hresultw (hend.of_isOpen fun _ => rfl)
    show LeavesTail (skipSimple (significant ts)) rest
    rw [hskip]
    exact hdone.map f hf
  | predicate h htype ih =>
    rw [List.map_append, List.map_cons] at hw
    obtain ⟨mid, hfirst, hsecond⟩ := hw.split
    obtain ⟨w, vs, hsig, _, _, hlex, hrest⟩ := hsecond.significant
    refine skipSimple_of_named h hfirst (fun m hm => ?_) (Or.inl ⟨w, vs, hsig, hlex, ih hrest (hend.of_isOpen fun _ => rfl)⟩)
    rw [hsecond.lexemes_eq] at hm
    rw [← Option.some.inj hm]
    decide
  | simple h ih =>
    have hskip : LeavesTail (skipSimple (significant ts)) rest := ih hw (hend.of_isOpen id)
    obtain ⟨m, ms', rfl, _, hhead⟩ := text_head h
    show LeavesTail (skipOperand (significant ts)) rest
    rw [skipOperand_eq_skipSimple (hhead rfl).1 (hhead rfl).2 hw]
    exact hskip
  | prefixed hname hms h ih =>
    obtain ⟨us, hus, f, hf, hskip⟩ := skipOperand_of_prefixed hname hms hw
    have hdone : LeavesTail (skipOperand (significant us)) rest := ih hus hend
    show LeavesTail (skipOperand (significant ts)) rest
    rw [hskip]
    exact hdone.map f hf
  | generic hparameters h ih =>
    obtain ⟨us, hus, f, hf, hskip⟩ := skipOperand_of_generic hparameters hw
    have hdone : LeavesTail (skipSimple (significant us)) rest := ih hus (hend.of_isOpen id)
    show LeavesTail (skipOperand (significant ts)) rest
    rw [hskip]
    exact hdone.map f hf
  | operand h ih =>
    obtain ⟨r, hr, hrest⟩ := ih hw (hend.of_isOpen fun _ => isOpen_joined _)
    refine ⟨r, hr, ?_⟩
    rw [hrest]
    exact skipMore_of_end hend (isOpen_joined _)
  | @join bare bare' greedy op first others hop h hothers ih ihothers =>
    rw [List.map_append, List.map_cons] at hw
    obtain ⟨mid, hfirst, hsecond⟩ := hw.split
    have hgo : goesOn .operand bare false (mark op) = false := by
      rcases List.mem_cons.mp hop with rfl | hop
      · cases bare <;> rfl
      · rw [List.mem_singleton.mp hop]
        cases bare <;> rfl
    obtain ⟨r, hr, rfl⟩ := ih hfirst (endsBefore_of_written hsecond hgo)
    obtain ⟨t, us, hsig, _, _, ht, hrest⟩ := hsecond.significant
    exact ⟨r, hr, skipMore_of_join hop hsig ht (ihothers hrest hend)⟩
  | @conditional b₁ b₂ b₃ b₄ g₃ g₄ checked bound yes no hchecked hbound hyes hno ihchecked ihbound ihyes ihno =>
    rw [List.map_append, List.map_cons] at hw
    obtain ⟨mid, hfirst, hsecond⟩ := hw.split
    have hgo : goesOn .operand b₁ false (word "extends") = false := by cases b₁ <;> rfl
    obtain ⟨r, hr, rfl⟩ := ihchecked hfirst (endsBefore_of_written hsecond hgo)
    refine ⟨r, hr, skipMore_of_condition hsecond (fun us mid hus hmid => ihbound hus fun m hm => ?_)
      (fun us mid hus hmid => ihyes hus fun m hm => ?_)
      (fun us hus => ihno hus (hend.of_isOpen fun _ => isOpen_joined _)) (skipMore_of_end hend (isOpen_joined _))⟩
    · rw [hmid m hm]
      cases b₂ <;> rfl
    · rw [hmid m hm]
      cases b₃ <;> cases g₃ <;> rfl
  | whole h ih =>
    obtain ⟨m, ms', rfl, hhead, _⟩ := text_head h
    refine skipType_of_first (firstOperand_of_head (fun hk hmem => ?_) hw) (ih hw (hend.of_isOpen fun _ => isOpen_whole _))
    exact absurd (hhead nofun hk) ((by decide : ∀ s ∈ ["|", "&"], s ∉ ["(", "[", "\x7b", "-", "<"]) _ hmem)
  | leading hop h ih =>
    obtain ⟨t, us, hsig, _, _, ht, hrest⟩ := hw.significant
    exact skipType_of_first (firstOperand_of_leading hop hsig ht) (ih hrest (hend.of_isOpen fun _ => isOpen_whole _))

/-- Where a type stands, `skipType` skips exactly that type. -/
theorem skipType_of_text {bare greedy : Bool} {ms : List Lexeme} (h : TypeText .whole bare greedy ms) {ts rest : List Token}
    (hw : Written (ms.map typed) ts rest) (hend : EndsBefore .whole bare greedy rest) : LeavesTail (skipType ts) rest :=
  skips_of_text h hw hend

end ScriptLoader.Syntax
