import ScriptLoader.Proofs.Core.SkipType
import ScriptLoader.Proofs.Eraser.Brackets

/-!
# Skipping a statement

`skipStatement` reads no types: it looks for a semicolon, an opening curly bracket or a line break outside round and square brackets.
Tokens that have none of these there are passed (`skipStatement_append`), and of others, if their brackets are nested, something is left
(`skipStatement_within`). The brackets of a type are nested (`behind_of_text`).
-/

namespace ScriptLoader.Syntax

/-! ## Round and square brackets -/

/-- How many round and square brackets a token opens; a closing one counts down. -/
def turn (t : Token) : Int :=
  if t.text = "(" || t.text = "[" then 1 else if t.text = ")" || t.text = "]" then -1 else 0

/-- How many round and square brackets the tokens open and do not close. -/
def balance (ts : List Token) : Int := (ts.map turn).sum

/-- The tokens that stand in no round or square bracket, where `depth` of them are open at the front. -/
def outside (depth : Int) : List Token → List Token
  | [] => []
  | t :: ts => if depth = 0 then t :: outside (depth + turn t) ts else outside (depth + turn t) ts

/-- Outside round and square brackets, skipping a statement ends at the token. -/
def endsStatement (t : Token) : Bool := t.text = ";" || t.text = "\x7b" || t.breaksLine

/-- Outside round and square brackets there is no semicolon, no opening curly bracket and no line break. -/
def Unbroken (ts : List Token) : Prop := ∀ t ∈ outside 0 ts, endsStatement t = false

instance (ts : List Token) : Decidable (Unbroken ts) := inferInstanceAs (Decidable (∀ t ∈ outside 0 ts, endsStatement t = false))

section SkipStatement

variable {depth : Int} {t : Token} {ts front : List Token}

@[simp] theorem balance_cons (t : Token) (ts : List Token) : balance (t :: ts) = turn t + balance ts := by
  rw [balance, List.map_cons, List.sum_cons, balance]

theorem skipStatement_cons (h : depth = 0 → endsStatement t = false) (ts : List Token) :
    (skipStatement depth (t :: ts)).map (·.tokens) = (skipStatement (depth + turn t) ts).map (·.tokens) := by
  have hgo (depth' : Int) :
      ((skipStatement depth' ts).map (·.widen (List.suffix_cons t ts))).map (·.tokens) = (skipStatement depth' ts).map (·.tokens) :=
    map_tokens_map _ fun _ => rfl
  have hnot : (depth = 0 && t.text = ";") = false ∧ (depth = 0 && t.text = "\x7b") = false ∧ (depth = 0 && t.breaksLine) = false := by
    by_cases hdepth : depth = 0
    · have hends := h hdepth
      simp only [endsStatement, Bool.or_eq_false_iff] at hends
      simp only [hdepth, decide_true, Bool.true_and, hends, and_self]
    · simp only [hdepth, decide_false, Bool.false_and, and_self]
  rw [skipStatement, if_neg (by simp [hnot.1]), if_neg (by simp [hnot.2.1]), if_neg (by simp [hnot.2.2]), turn]
  split
  · exact hgo (depth + 1)
  · split
    · exact hgo (depth - 1)
    · rw [Int.add_zero]
      exact hgo depth

/-- Tokens that end no statement are passed. -/
theorem skipStatement_append (h : ∀ t ∈ outside depth front, endsStatement t = false) (ts : List Token) :
    (skipStatement depth (front ++ ts)).map (·.tokens) = (skipStatement (depth + balance front) ts).map (·.tokens) := by
  induction front generalizing depth with
  | nil => rw [List.nil_append, balance, List.map_nil, List.sum_nil, Int.add_zero]
  | cons t front ih =>
    rw [outside] at h
    have hfront : ∀ u ∈ outside (depth + turn t) front, endsStatement u = false := by
      intro u hu
      refine h u ?_
      split
      · exact List.mem_cons_of_mem t hu
      · exact hu
    have hhead : depth = 0 → endsStatement t = false := by
      intro hdepth
      rw [if_pos hdepth] at h
      exact h t List.mem_cons_self
    rw [List.cons_append, skipStatement_cons hhead, ih hfront, balance_cons, Int.add_assoc]

/-! ## Nested brackets -/

theorem LeavesTail.toRest {rest : List Token} {x : Except Refusal (Tail ts)} (h : LeavesTail x rest) : Leaves (x.map Tail.toRest) rest := by
  obtain ⟨r, rfl, rfl⟩ := h
  exact ⟨r.toRest, rfl, rfl⟩

/-- How many of the open brackets are round or square. -/
def held (opened : List Bracket) : Int := opened.countP (· != .curly)

theorem held_after {opened opened' : List Bracket} (h : Bracket.after opened t = some opened') : held opened' = held opened + turn t := by
  rcases Bracket.after_cases h with ⟨b, ht, rfl⟩ | ⟨b, ht, rfl⟩ | ⟨⟨hopen, hclose⟩, rfl⟩
  · rw [turn, ht]
    cases b <;> simp [held, Bracket.opener]
  · rw [turn, ht]
    cases b <;> simp [held, Bracket.closer]
  · have hopener (b : Bracket) : t.text ≠ b.opener := ne_opener_of (by simp [hopen])
    have hcloser (b : Bracket) : t.text ≠ b.closer := ne_closer_of (by simp [hclose])
    have hround : (t.text = "(" || t.text = "[") = false :=
      Bool.or_eq_false_iff.mpr ⟨decide_eq_false (hopener .round), decide_eq_false (hopener .square)⟩
    have hround' : (t.text = ")" || t.text = "]") = false :=
      Bool.or_eq_false_iff.mpr ⟨decide_eq_false (hcloser .round), decide_eq_false (hcloser .square)⟩
    simp [turn, hround, hround']

/-- Behind nested brackets as many are open as before. -/
theorem balance_of_behind {opened opened' : List Bracket} (h : Bracket.behind opened ts = some opened') :
    held opened' = held opened + balance ts := by
  induction ts generalizing opened with
  | nil =>
    obtain rfl := Option.some.inj h
    rw [balance, List.map_nil, List.sum_nil, Int.add_zero]
  | cons t ts ih =>
    rw [Bracket.behind_cons] at h
    obtain ⟨opened₁, hafter, hbehind⟩ := Option.bind_eq_some_iff.mp h
    rw [ih hbehind, held_after hafter, balance_cons, Int.add_assoc]

/-- A bracket that is open is closed within tokens that close all brackets. -/
theorem skipPast_within {b : Bracket} {n : Nat} {opened : List Bracket} (h : Bracket.behind opened front = some [])
    (hn : n < opened.count b) (ts : List Token) : ∃ mid, Leaves (skipPast b n (front ++ ts)) mid ∧ ts <:+ mid := by
  induction front generalizing opened n with
  | nil =>
    obtain rfl := Option.some.inj h
    nomatch hn
  | cons t front ih =>
    rw [Bracket.behind_cons] at h
    obtain ⟨opened₁, hafter, hbehind⟩ := Option.bind_eq_some_iff.mp h
    rcases Bracket.after_cases hafter with ⟨k, ht, rfl⟩ | ⟨k, ht, rfl⟩ | ⟨⟨hopen, hclose⟩, rfl⟩
    · by_cases hk : k = b
      · subst hk
        obtain ⟨mid, hmid, hsuffix⟩ := ih hbehind (n := n + 1) (by rw [List.count_cons_self]; omega)
        exact ⟨mid, skipPast_cons_opener ht hmid, hsuffix⟩
      · obtain ⟨mid, hmid, hsuffix⟩ := ih hbehind (n := n) (by rw [List.count_cons_of_ne hk]; exact hn)
        refine ⟨mid, skipPast_cons_other ?_ ?_ hmid, hsuffix⟩
        · rw [ht]
          exact ne_opener_of (by rw [Bracket.opened?_opener]; exact fun heq => hk (Option.some.inj heq))
        · rw [ht]
          exact ne_closer_of (by rw [closed?_opener]; nofun)
    · by_cases hk : k = b
      · subst hk
        rw [List.count_cons_self] at hn
        cases n with
        | zero => exact ⟨front ++ ts, skipPast_cons_last ht (front ++ ts), List.suffix_append front ts⟩
        | succ n =>
          obtain ⟨mid, hmid, hsuffix⟩ := ih hbehind (n := n) (by omega)
          exact ⟨mid, skipPast_cons_closer ht hmid, hsuffix⟩
      · rw [List.count_cons_of_ne hk] at hn
        obtain ⟨mid, hmid, hsuffix⟩ := ih hbehind hn
        refine ⟨mid, skipPast_cons_other ?_ ?_ hmid, hsuffix⟩
        · rw [ht]
          exact ne_opener_of (by rw [opened?_closer]; nofun)
        · rw [ht]
          exact ne_closer_of (by rw [Bracket.closed?_closer]; exact fun heq => hk (Option.some.inj heq))
    · obtain ⟨mid, hmid, hsuffix⟩ := ih hbehind hn
      exact ⟨mid, skipPast_cons_other (ne_opener_of (by rw [hopen]; nofun)) (ne_closer_of (by rw [hclose]; nofun)) hmid, hsuffix⟩

/-- Where a token ends the statement, the tokens up to the partner of a curly bracket are skipped, and no more. -/
theorem skipStatement_of_ends {opened : List Bracket} (hends : endsStatement t = true)
    (h : Bracket.behind opened (t :: front) = some []) (ts : List Token) :
    ∃ mid, Leaves (skipStatement 0 (t :: front ++ ts)) mid ∧ ts <:+ mid := by
  have hsuffix : ts <:+ front ++ ts := List.suffix_append front ts
  rw [List.cons_append, skipStatement]
  by_cases hsemicolon : t.text = ";"
  · rw [if_pos (by simp [hsemicolon])]
    exact ⟨front ++ ts, ⟨_, rfl, rfl⟩, hsuffix⟩
  by_cases hcurly : t.text = "\x7b"
  · have hopened : Bracket.behind (.curly :: opened) front = some [] := by
      rw [Bracket.behind_cons, Bracket.after_of_opener (b := .curly) hcurly, Option.bind_some] at h
      exact h
    obtain ⟨mid, hskip, hmid⟩ := skipPast_within hopened (n := 0) (by rw [List.count_cons_self]; exact Nat.succ_pos _) ts
    rw [if_neg (by simp [hsemicolon]), if_pos (by simp [hcurly])]
    exact ⟨mid, (hskip.mapTail Rest.afterHead fun _ => rfl).toRest, hmid⟩
  · have hline : t.breaksLine = true := by simpa [endsStatement, hsemicolon, hcurly] using hends
    rw [if_neg (by simp [hsemicolon]), if_neg (by simp [hcurly]), if_pos (by simp [hline])]
    exact ⟨t :: (front ++ ts), ⟨_, rfl, rfl⟩, hsuffix.trans (List.suffix_cons t _)⟩

/-- Of nested tokens that end a statement, and what is behind them, skipping leaves all that is behind them. -/
theorem skipStatement_within {opened : List Bracket} (h : Bracket.behind opened front = some [])
    (hends : ∃ t ∈ outside (held opened) front, endsStatement t = true) (ts : List Token) :
    ∃ mid, Leaves (skipStatement (held opened) (front ++ ts)) mid ∧ ts <:+ mid := by
  induction front generalizing opened with
  | nil =>
    obtain ⟨t, ht, _⟩ := hends
    nomatch ht
  | cons t front ih =>
    by_cases hstops : held opened = 0 ∧ endsStatement t = true
    · rw [hstops.1]
      exact skipStatement_of_ends hstops.2 h ts
    · rw [Bracket.behind_cons] at h
      obtain ⟨opened₁, hafter, hbehind⟩ := Option.bind_eq_some_iff.mp h
      have hheld := held_after hafter
      have hlater : ∃ u ∈ outside (held opened₁) front, endsStatement u = true := by
        obtain ⟨u, hu, hends⟩ := hends
        rw [outside, ← hheld] at hu
        split at hu
        · rename_i hzero
          rcases List.mem_cons.mp hu with rfl | hu
          · exact absurd ⟨hzero, hends⟩ hstops
          · exact ⟨u, hu, hends⟩
        · exact ⟨u, hu, hends⟩
      have hpassed := skipStatement_cons (fun hzero => Bool.eq_false_iff.mpr fun hends => hstops ⟨hzero, hends⟩) (front ++ ts)
      obtain ⟨mid, hmid, hsuffix⟩ := ih hbehind hlater
      refine ⟨mid, ?_, hsuffix⟩
      rw [leaves_iff] at hmid ⊢
      rw [List.cons_append, hpassed, ← hheld, hmid]

end SkipStatement

end ScriptLoader.Syntax
