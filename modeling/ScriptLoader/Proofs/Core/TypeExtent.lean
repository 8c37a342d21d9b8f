import Mathlib
import ScriptLoader.Proofs.Core.SkipType
import ScriptLoader.Proofs.Eraser.Run

/-!
# How far a type extends

Types as they are written: unions of any operands, with lists of types (`between_of_list`) and more between angle brackets and anything
nested between others (`TypeForm`). `skipType` skips such a type as a whole, with one exception: behind a negated number array suffixes are
not read, so that skipping ends in front of them (`skipType_exact_iff`).
-/

namespace ScriptLoader.Syntax

/-! ## Pieces -/

/-- A pair of brackets around pieces. -/
def inBrackets (b : Bracket) (inner : List Piece) : List Piece := .lexeme (mark b.opener) :: inner ++ [.lexeme (mark b.closer)]

/-- A pair of angle brackets around pieces. -/
def inAngles (inner : List Piece) : List Piece := .lexeme (mark "<") :: inner ++ [.closing]

namespace Merges

theorem of_lexemes (ms : List Lexeme) : Merges (ms.map .lexeme) ms := by
  induction ms with
  | nil => exact .nil
  | cons m ms ih => exact .lexeme ih

/-- Only closing angle brackets are put together. -/
theorem eq_of_lexemes {ms ms' : List Lexeme} (h : Merges (ms.map .lexeme) ms') : ms' = ms := by
  induction ms generalizing ms' with
  | nil =>
    cases h
    rfl
  | cons m ms ih =>
    cases h with
    | lexeme h => rw [ih h]

/-- Closing angle brackets at the front stand before the first lexeme. -/
theorem exists_of_closings {n : Nat} {ps qs all : List Piece} {m : Lexeme}
    (h : ps ++ .lexeme m :: qs = List.replicate n .closing ++ all) :
    ∃ ps', ps = List.replicate n .closing ++ ps' ∧ ps' ++ .lexeme m :: qs = all := by
  induction n generalizing ps with
  | zero => exact ⟨ps, rfl, h⟩
  | succ n ih =>
    cases ps with
    | nil => nomatch h
    | cons p ps =>
      obtain ⟨rfl, hps⟩ := List.cons.inj h
      obtain ⟨ps', rfl, hps'⟩ := ih hps
      exact ⟨ps', rfl, hps'⟩

/-- Angle brackets that close right before a lexeme are put together with none behind it. -/
theorem split {ps qs : List Piece} {m : Lexeme} {ms : List Lexeme} (h : Merges (ps ++ .lexeme m :: qs) ms) :
    ∃ first others, ms = first ++ m :: others ∧ Merges ps first ∧ Merges qs others := by
  generalize heq : ps ++ .lexeme m :: qs = all at h
  induction h generalizing ps with
  | nil => simp at heq
  | @lexeme m' rest ms h ih =>
    cases ps with
    | nil =>
      obtain ⟨hm, rfl⟩ := List.cons.inj heq
      cases hm
      exact ⟨[], ms, rfl, .nil, h⟩
    | cons p ps =>
      obtain ⟨rfl, hrest⟩ := List.cons.inj heq
      obtain ⟨first, others, rfl, hfirst, hothers⟩ := ih hrest
      exact ⟨m' :: first, others, rfl, .lexeme hfirst, hothers⟩
  | one h ih =>
    obtain ⟨ps, rfl, hrest⟩ := exists_of_closings (n := 1) heq
    obtain ⟨first, others, rfl, hfirst, hothers⟩ := ih hrest
    exact ⟨_, others, rfl, .one hfirst, hothers⟩
  | two h ih =>
    obtain ⟨ps, rfl, hrest⟩ := exists_of_closings (n := 2) heq
    obtain ⟨first, others, rfl, hfirst, hothers⟩ := ih hrest
    exact ⟨_, others, rfl, .two hfirst, hothers⟩
  | three h ih =>
    obtain ⟨ps, rfl, hrest⟩ := exists_of_closings (n := 3) heq
    obtain ⟨first, others, rfl, hfirst, hothers⟩ := ih hrest
    exact ⟨_, others, rfl, .three hfirst, hothers⟩

/-- Lexemes in front stay as they are. -/
theorem of_lexemes_append {ms : List Lexeme} {ps : List Piece} {ms' : List Lexeme} (h : Merges (ms.map .lexeme ++ ps) ms') :
    ∃ others, ms' = ms ++ others ∧ Merges ps others := by
  induction ms generalizing ms' with
  | nil => exact ⟨ms', rfl, h⟩
  | cons m ms ih =>
    cases h with
    | lexeme h =>
      obtain ⟨others, rfl, hothers⟩ := ih h
      exact ⟨others, rfl, hothers⟩

/-- Lexemes at the end stay as they are. -/
theorem of_append_lexemes {ps : List Piece} {ms ms' : List Lexeme} (h : Merges (ps ++ ms.map .lexeme) ms') :
    ∃ first, ms' = first ++ ms ∧ Merges ps first := by
  cases ms with
  | nil =>
    rw [List.map_nil, List.append_nil] at h
    exact ⟨ms', (List.append_nil ms').symm, h⟩
  | cons m ms =>
    obtain ⟨first, others, rfl, hfirst, hothers⟩ := h.split
    rw [hothers.eq_of_lexemes]
    exact ⟨first, rfl, hfirst⟩

end Merges

/-! ## Types as they are written -/

/-- Lexemes whose brackets are nested, as pieces. -/
def NestedPieces (ps : List Piece) : Prop := ∃ ms, ps = ms.map .lexeme ∧ Nested ms

theorem nestedPieces_nil : NestedPieces [] := ⟨[], rfl, .nil⟩

section TypeForm

-- what may stand in round, square and curly brackets
variable (Body : List Piece → Prop)

/-- What is read with the array suffixes behind it: a name with its arguments, if it has any, a literal or something in brackets. -/
inductive Primary : List Piece → Prop where
  | name {x : String} {dots : List Lexeme} (hx : x ∉ typePrefixes) (hdots : Dotted dots) : Primary ((word x :: dots).map .lexeme)
  | applied {x : String} {dots : List Lexeme} {inner : List Piece} (hx : x ∉ typePrefixes) (hdots : Dotted dots)
      (hinner : Between false inner) : Primary ((word x :: dots).map .lexeme ++ inAngles inner)
  | literal {m : Lexeme} (hm : isLiteralKind m.1 = true) : Primary [.lexeme m]
  | group (b : Bracket) {inner : List Piece} (hinner : Body inner) : Primary (inBrackets b inner)

/-- Array suffixes and indexed access. -/
inductive SuffixForms : List Piece → Prop where
  | nil : SuffixForms []
  | cons {inner ps : List Piece} (hinner : Body inner) (h : SuffixForms ps) : SuffixForms (inBrackets .square inner ++ ps)

/-- The text of a part of a type. It is `cut` if, outside brackets, a negated number has an array suffix. -/
inductive TypeForm : (part : TypePart) → (cut : Bool) → List Piece → Prop where
  | primary {ps suffixes : List Piece} (h : Primary Body ps) (hsuffixes : SuffixForms Body suffixes) :
      TypeForm .simple false (ps ++ suffixes)
  | negative {m : Lexeme} (hm : m.1 = .number) : TypeForm .simple false [.lexeme (mark "-"), .lexeme m]
  | negativeArray {m : Lexeme} {inner suffixes : List Piece} (hm : m.1 = .number) (hinner : Body inner)
      (hsuffixes : SuffixForms Body suffixes) :
      TypeForm .simple true (.lexeme (mark "-") :: .lexeme m :: (inBrackets .square inner ++ suffixes))
  | function {cut : Bool} {parameters result : List Piece} (hparameters : Body parameters) (h : TypeForm .whole cut result) :
      TypeForm .simple cut (inBrackets .round parameters ++ .lexeme (mark "=>") :: result)
  | simple {cut : Bool} {ps : List Piece} (h : TypeForm .simple cut ps) : TypeForm .operand cut ps
  | generic {cut : Bool} {m : Lexeme} {parameters ps : List Piece} (hparameters : Between false parameters)
      (h : TypeForm .simple cut (.lexeme m :: ps)) : TypeForm .operand cut (inAngles parameters ++ .lexeme m :: ps)
  | prefixed {cut : Bool} {x : String} {m : Lexeme} {ps : List Piece} (hx : x ∈ typePrefixes) (hm : beginsPrefixed [m] = true)
      (h : TypeForm .operand cut (.lexeme m :: ps)) : TypeForm .operand cut (.lexeme (word x) :: .lexeme m :: ps)
  | operand {cut : Bool} {ps : List Piece} (h : TypeForm .operand cut ps) : TypeForm .joined cut ps
  | join {cut cut' : Bool} {op : String} {ps qs : List Piece} (hop : op ∈ ["|", "&"]) (h : TypeForm .operand cut ps)
      (hothers : TypeForm .joined cut' qs) : TypeForm .joined (cut || cut') (ps ++ .lexeme (mark op) :: qs)
  | whole {cut : Bool} {ps : List Piece} (h : TypeForm .joined cut ps) : TypeForm .whole cut ps
  | leading {cut : Bool} {op : String} {ps : List Piece} (hop : op ∈ ["|", "&"]) (h : TypeForm .joined cut ps) :
      TypeForm .whole cut (.lexeme (mark op) :: ps)

end TypeForm

/-! ## Types between angle brackets -/

section Between

variable {inside cut : Bool} {ps qs : List Piece}

theorem Between.append (h : Between inside ps) (h' : Between inside qs) : Between inside (ps ++ qs) := by
  induction h with
  | nil => exact h'
  | leaf hfits hangle hopen hclose hsemicolon h ih => exact .leaf hfits hangle hopen hclose hsemicolon (ih h')
  | group b hinner h _ ih =>
    rw [List.append_assoc]
    exact .group b hinner (ih h')
  | angles hinner h _ ih =>
    rw [List.append_assoc]
    exact .angles hinner (ih h')

/-- What may stand outside brackets may stand in them. -/
theorem Between.mono (h : Between false ps) : Between inside ps := by
  generalize hout : false = outside at h
  induction h with
  | nil => exact .nil inside
  | leaf hfits hangle hopen hclose hsemicolon h ih =>
    subst hout
    exact .leaf hfits hangle hopen hclose (fun hm => nomatch hsemicolon hm) (ih rfl)
  | group b hinner h _ ih => exact .group b hinner (ih hout)
  | angles hinner h ihinner ih => exact .angles (ihinner hout) (ih hout)

/-- A word or a literal may stand there, with its text as the lexer makes it. -/
theorem Between.cons {m : Lexeme} (hfits : fitsArguments m = true) (hshape : beginsOther m.2.toList = true) (h : Between inside ps) :
    Between inside (.lexeme m :: ps) := by
  have hne := fun {s : String} => ne_of_beginsOther (m := s) hshape
  refine .leaf hfits ?_ ?_ ?_ (fun hm => absurd hm (hne (by decide))) h
  · rw [angleStep, if_neg (hne (by decide)), if_neg (hne (by decide)), if_neg (hne (by decide)), if_neg (hne (by decide))]
  · rw [Bracket.opened?, if_neg (hne (by decide)), if_neg (hne (by decide)), if_neg (hne (by decide))]
  · rw [Bracket.closed?, if_neg (hne (by decide)), if_neg (hne (by decide)), if_neg (hne (by decide))]

/-- The words and literals of the pieces are such as the lexer makes. -/
def ShapedPieces (ps : List Piece) : Prop := ∀ m : Lexeme, .lexeme m ∈ ps → m.1 ≠ .punctuation → beginsOther m.2.toList = true

theorem ShapedPieces.left (h : ShapedPieces (ps ++ qs)) : ShapedPieces ps := fun m hm => h m (List.mem_append_left _ hm)

theorem ShapedPieces.right (h : ShapedPieces (ps ++ qs)) : ShapedPieces qs := fun m hm => h m (List.mem_append_right _ hm)

theorem ShapedPieces.tail {p : Piece} (h : ShapedPieces (p :: ps)) : ShapedPieces ps := fun m hm => h m (List.mem_cons_of_mem _ hm)

theorem Between.word {x : String} (hshape : ShapedPieces (.lexeme (word x) :: ps)) (h : Between inside ps) :
    Between inside (.lexeme (word x) :: ps) := .cons rfl (hshape _ List.mem_cons_self nofun) h

theorem between_of_dotted {ms : List Lexeme} (h : Dotted ms) (hshape : ShapedPieces (ms.map .lexeme)) :
    Between inside (ms.map .lexeme) := by
  induction h with
  | nil => exact .nil inside
  | cons h ih => exact .leaf rfl rfl rfl rfl nofun (.word hshape.tail (ih hshape.tail.tail))

theorem between_inBrackets (b : Bracket) (h : Between true ps) : Between inside (inBrackets b ps) := .group b h (.nil inside)

theorem between_inAngles (h : Between false ps) : Between inside (inAngles ps) := .angles h.mono (.nil inside)

theorem between_of_primary (h : Primary (Between true) ps) (hshape : ShapedPieces ps) : Between inside ps := by
  cases h with
  | name hx hdots => exact .word hshape (between_of_dotted hdots hshape.tail)
  | applied hx hdots hinner => exact .word hshape ((between_of_dotted hdots hshape.tail.left).append (between_inAngles hinner))
  | @literal m hm =>
    have hkind : m.1 ≠ .punctuation := by
      intro hk
      rw [hk] at hm
      nomatch hm
    refine .cons ?_ (hshape m List.mem_cons_self hkind) (.nil inside)
    rw [fitsArguments]
    rw [isLiteralKind] at hm
    rw [hm, Bool.true_or, Bool.true_or]
  | group b hinner => exact between_inBrackets b hinner

theorem between_of_suffixes (h : SuffixForms (Between true) ps) : Between inside ps := by
  induction h with
  | nil => exact .nil inside
  | cons hinner h ih => exact (between_inBrackets .square hinner).append ih

/-- A type may stand between angle brackets, if what stands in its brackets may stand there. -/
theorem between_of_form {part : TypePart} (h : TypeForm (Between true) part cut ps) (hshape : ShapedPieces ps) : Between inside ps := by
  have hother {s : String} (hs : s ≠ ";") (heq : s = ";") : inside = true := absurd heq hs
  have hjoin : ∀ {op : String} {ps : List Piece}, op ∈ ["|", "&"] → Between inside ps → Between inside (.lexeme (mark op) :: ps) := by
    intro op ps hop h
    rcases List.mem_cons.mp hop with rfl | hop
    · exact .leaf rfl rfl rfl rfl (hother (by decide)) h
    · obtain rfl := List.mem_singleton.mp hop
      exact .leaf rfl rfl rfl rfl (hother (by decide)) h
  induction h with
  | primary h hsuffixes => exact (between_of_primary h hshape.left).append (between_of_suffixes hsuffixes)
  | @negative m hm =>
    refine .leaf rfl rfl rfl rfl (hother (by decide)) (.cons ?_ (hshape.tail m List.mem_cons_self (by rw [hm]; decide)) (.nil inside))
    rw [fitsArguments, hm]
    rfl
  | @negativeArray m _ _ hm hinner hsuffixes =>
    refine .leaf rfl rfl rfl rfl (hother (by decide)) (.cons ?_ (hshape.tail m List.mem_cons_self (by rw [hm]; decide)) ?_)
    · rw [fitsArguments, hm]
      rfl
    · exact (between_inBrackets .square hinner).append (between_of_suffixes hsuffixes)
  | function hparameters h ih =>
    exact (between_inBrackets .round hparameters).append (.leaf rfl rfl rfl rfl (hother (by decide)) (ih hshape.right.tail))
  | simple h ih => exact ih hshape
  | generic hparameters h ih => exact (between_inAngles hparameters).append (ih hshape.right)
  | prefixed hx hm h ih => exact .word hshape (ih hshape.tail)
  | operand h ih => exact ih hshape
  | join hop h hothers ih ihothers => exact (ih hshape.left).append (hjoin hop (ihothers hshape.right.tail))
  | whole h ih => exact ih hshape
  | leading hop h ih => exact hjoin hop (ih hshape.tail)

/-- Types with commas between them. -/
inductive FormList : List Piece → Prop where
  | one {cut : Bool} {ps : List Piece} (h : TypeForm (Between true) .whole cut ps) : FormList ps
  | more {cut : Bool} {ps qs : List Piece} (h : TypeForm (Between true) .whole cut ps) (hothers : FormList qs) :
      FormList (ps ++ .lexeme (mark ",") :: qs)

/-- A list of types may stand between angle brackets. -/
theorem between_of_list (h : FormList ps) (hshape : ShapedPieces ps) : Between false ps := by
  induction h with
  | one h => exact between_of_form h hshape
  | more h hothers ih => exact (between_of_form h hshape.left).append (.leaf rfl rfl rfl rfl (by decide) (ih hshape.right.tail))

end Between

/-! ## Pieces of types as texts of types -/

section Texts

variable {inner ps : List Piece} {ms : List Lexeme}

theorem group_of_nested (h : NestedPieces inner) (b : Bracket) : ∃ ms, inBrackets b inner = ms.map .lexeme ∧ Group b ms := by
  obtain ⟨ms, rfl, hms⟩ := h
  exact ⟨mark b.opener :: ms ++ [mark b.closer], by simp [inBrackets], .intro hms⟩

theorem suffixes_of_forms (h : SuffixForms NestedPieces ps) : ∃ ms, ps = ms.map .lexeme ∧ Suffixes ms := by
  induction h with
  | nil => exact ⟨[], rfl, .nil⟩
  | cons hinner h ih =>
    obtain ⟨suffixes, rfl, hsuffixes⟩ := ih
    obtain ⟨ms, heq, hgroup⟩ := group_of_nested hinner .square
    exact ⟨ms ++ suffixes, by rw [heq, List.map_append], .cons hgroup hsuffixes⟩

theorem base_of_primary (h : Primary NestedPieces ps) (hm : Merges ps ms) : ∃ bare, Base bare ms := by
  cases h with
  | name hx hdots =>
    rw [hm.eq_of_lexemes]
    exact ⟨_, .named (.plain hx hdots)⟩
  | applied hx hdots hinner =>
    obtain ⟨arguments, rfl, harguments⟩ := hm.of_lexemes_append
    exact ⟨_, .named (.applied hx hdots (.intro hinner harguments))⟩
  | @literal m hm' =>
    have hone : Merges ([m].map .lexeme) ms := hm
    rw [hone.eq_of_lexemes]
    exact ⟨_, .literal hm'⟩
  | group b hinner =>
    obtain ⟨ms', heq, hgroup⟩ := group_of_nested hinner b
    rw [heq] at hm
    rw [hm.eq_of_lexemes]
    cases b with
    | round => exact ⟨_, .round hgroup⟩
    | square => exact ⟨_, .square hgroup⟩
    | curly => exact ⟨_, .curly hgroup⟩

/-- The first piece of a part of a type. -/
theorem form_head {Body : List Piece → Prop} {part : TypePart} {cut : Bool} (h : TypeForm Body part cut ps) :
    ∃ m ps', ps = .lexeme m :: ps' ∧ (part ≠ .whole → m.1 = .punctuation → m.2 ∉ ["|", "&"]) ∧
      (part = .simple → (m.1 = .identifier → m.2 ∉ typePrefixes) ∧ (m.1 = .punctuation → m.2 ≠ "<")) := by
  have hbracket (b : Bracket) : (mark b.opener).2 ∉ ["|", "&"] ∧ (mark b.opener).2 ≠ "<" := by cases b <;> decide
  induction h with
  | primary h hsuffixes =>
    cases h with
    | name hx hdots => exact ⟨_, _, rfl, fun _ => nofun, fun _ => ⟨fun _ => hx, nofun⟩⟩
    | applied hx hdots hinner => exact ⟨_, _, rfl, fun _ => nofun, fun _ => ⟨fun _ => hx, nofun⟩⟩
    | literal hm => refine ⟨_, _, rfl, fun _ hk => ?_, fun _ => ⟨fun hk => ?_, fun hk => ?_⟩⟩ <;> rw [hk] at hm <;> nomatch hm
    | group b hinner => exact ⟨_, _, rfl, fun _ _ => (hbracket b).1, fun _ => ⟨nofun, fun _ => (hbracket b).2⟩⟩
  | negative hm => exact ⟨_, _, rfl, fun _ _ => by decide, fun _ => ⟨nofun, fun _ => by decide⟩⟩
  | negativeArray hm hinner hsuffixes => exact ⟨_, _, rfl, fun _ _ => by decide, fun _ => ⟨nofun, fun _ => by decide⟩⟩
  | function hparameters h _ => exact ⟨_, _, rfl, fun _ _ => (hbracket .round).1, fun _ => ⟨nofun, fun _ => (hbracket .round).2⟩⟩
  | simple h ih =>
    obtain ⟨m, ps', rfl, hm, _⟩ := ih
    exact ⟨m, ps', rfl, fun _ => hm nofun, nofun⟩
  | generic hparameters h _ => exact ⟨_, _, rfl, fun _ _ => by decide, nofun⟩
  | prefixed hx hm h _ => exact ⟨_, _, rfl, fun _ => nofun, nofun⟩
  | operand h ih =>
    obtain ⟨m, ps', rfl, hm, _⟩ := ih
    exact ⟨m, ps', rfl, fun _ => hm nofun, nofun⟩
  | join hop h hothers ih _ =>
    obtain ⟨m, ps', rfl, hm, _⟩ := ih
    exact ⟨m, _, rfl, fun _ => hm nofun, nofun⟩
  | whole h ih =>
    obtain ⟨m, ps', rfl, hm, _⟩ := ih
    exact ⟨m, ps', rfl, fun hne => absurd rfl hne, nofun⟩
  | leading hop h ih => exact ⟨_, _, rfl, fun hne => absurd rfl hne, nofun⟩

end Texts

/-! ## Skipping -/

/-- Skipping an operand and what is joined to it leaves `rest`. -/
def LeavesMore {ts : List Token} (x : Except Refusal (Tail ts)) (rest : List Token) : Prop :=
  ∃ r, x = .ok r ∧ Leaves (skipMore r.tokens) rest

/-- Skipping a part of a type, and what is joined to it, leaves what is behind. -/
def SkipsForm (part : TypePart) (ts rest : List Token) : Prop :=
  match part with
  | .simple => LeavesMore (skipSimple (significant ts)) rest
  | .operand => LeavesMore (skipOperand (significant ts)) rest
  | .joined => LeavesMore (skipOperand (significant ts)) rest
  | .whole => LeavesTail (skipType ts) rest

/-- Skipping ends at `mid`, or before that in front of an array suffix. -/
def EndsAt (cut : Bool) (mid mid' : List Token) : Prop :=
  if cut = true then (lexemes mid').head? = some (mark "[") else mid' = mid

section Skipping

variable {cut : Bool} {ts us rest mid mid' : List Token}

theorem LeavesMore.map {x : Except Refusal (Tail us)} (h : LeavesMore x rest) (f : Tail us → Tail ts)
    (hf : ∀ r, (f r).tokens = r.tokens) : LeavesMore (x.map f) rest := by
  obtain ⟨r, rfl, hmore⟩ := h
  exact ⟨f r, rfl, (hf r).symm ▸ hmore⟩

theorem LeavesTail.more {x : Except Refusal (Tail ts)} (h : LeavesTail x mid) (hmore : Leaves (skipMore mid) rest) :
    LeavesMore x rest := by
  obtain ⟨r, rfl, rfl⟩ := h
  exact ⟨r, rfl, hmore⟩

/-- Before an array suffix nothing is joined. -/
theorem skipMore_of_suffix (h : (lexemes rest).head? = some (mark "[")) : Leaves (skipMore rest) rest := by
  refine skipMore_of_stop fun m hm => ?_
  rw [h] at hm
  rw [← Option.some.inj hm]
  decide

theorem EndsAt.settled (h : EndsAt cut mid mid') (hmid : Leaves (skipMore mid) mid) : Leaves (skipMore mid') mid' := by
  unfold EndsAt at h
  split at h
  · exact skipMore_of_suffix h
  · rw [h]
    exact hmid

theorem EndsBefore.of_bare {part : TypePart} {bare greedy : Bool} (h : EndsBefore part true greedy rest) :
    EndsBefore part bare greedy rest := by
  intro m hm
  have hgo := h m hm
  simp only [goesOn, Bool.or_eq_false_iff, Bool.and_eq_false_imp] at hgo ⊢
  exact ⟨⟨hgo.1.1, fun _ => hgo.1.2 trivial⟩, hgo.2⟩

/-- Where a part of a type stands, and skipping goes on behind it up to `mid`, the part is skipped, up to a negated number that has an
array suffix. Such a number is not behind the part. -/
theorem skips_within_form {part : TypePart} {ps : List Piece} {ms : List Lexeme} (h : TypeForm NestedPieces part cut ps)
    (hm : Merges ps ms) (hw : Written (ms.map typed) ts rest) (hend : EndsBefore .simple true false rest)
    (hmore : Leaves (skipMore rest) mid) (hmid : Leaves (skipMore mid) mid) :
    ∃ mid', SkipsForm part ts mid' ∧ EndsAt cut mid mid' ∧ (cut = true → rest.length < mid'.length) := by
  induction h generalizing ms ts rest mid with
  | primary h hsuffixes =>
    obtain ⟨suffixes, rfl, hgroups⟩ := suffixes_of_forms hsuffixes
    obtain ⟨base, rfl, hmerges⟩ := hm.of_append_lexemes
    obtain ⟨bare, hbase⟩ := base_of_primary h hmerges
    have hskip : LeavesTail (skipSimple (significant ts)) rest := skips_of_text (.based hbase hgroups) hw hend.of_bare
    exact ⟨mid, hskip.more hmore, rfl, nofun⟩
  | @negative m hnumber =>
    have htwo : Merges ([mark "-", m].map .lexeme) ms := hm
    rw [htwo.eq_of_lexemes] at hw
    exact ⟨mid, (skipSimple_of_negative hnumber hw).more hmore, rfl, nofun⟩
  | @negativeArray m inner suffixes hnumber hinner hsuffixes =>
    have htwo : Merges ([mark "-", m].map .lexeme ++ (inBrackets .square inner ++ suffixes)) ms := hm
    obtain ⟨others, rfl, hothers⟩ := htwo.of_lexemes_append
    rw [List.map_append] at hw
    obtain ⟨mid', hfirst, hsecond⟩ := hw.split
    cases hothers
    have hhead : (lexemes mid').head? = some (mark "[") := by
      rw [hsecond.lexemes_eq]
      rfl
    exact ⟨mid', (skipSimple_of_negative hnumber hfirst).more (skipMore_of_suffix hhead), hhead, fun _ => hsecond.length_lt⟩
  | function hparameters h ih =>
    obtain ⟨first, result, rfl, hfirst, hresult⟩ := hm.split
    obtain ⟨parameters, heq, hgroup⟩ := group_of_nested hparameters .round
    rw [heq] at hfirst
    rw [hfirst.eq_of_lexemes] at hw
    obtain ⟨us, hus, f, hf, hskip⟩ := skipSimple_of_function hgroup hw
    obtain ⟨mid', hresult', hends, hlater⟩ := ih hresult hus hend hmore hmid
    refine ⟨mid', ?_, hends, hlater⟩
    show LeavesMore (skipSimple (significant ts)) mid'
    rw [hskip]
    exact (LeavesTail.map hresult' f hf).more (hends.settled hmid)
  | simple h ih =>
    obtain ⟨mid', hskip, hends⟩ := ih hm hw hend hmore hmid
    refine ⟨mid', ?_, hends⟩
    obtain ⟨m, ps', rfl, _, hhead⟩ := form_head h
    cases hm
    show LeavesMore (skipOperand (significant ts)) mid'
    rw [skipOperand_eq_skipSimple (hhead rfl).1 (hhead rfl).2 hw]
    exact hskip
  | generic hparameters h ih =>
    obtain ⟨parameters, others, rfl, hfirst, hothers⟩ := hm.split
    obtain ⟨us, hus, f, hf, hskip⟩ := skipOperand_of_generic (.intro hparameters hfirst) hw
    obtain ⟨mid', hdone, hends⟩ := ih (.lexeme hothers) hus hend hmore hmid
    refine ⟨mid', ?_, hends⟩
    show LeavesMore (skipOperand (significant ts)) mid'
    rw [hskip]
    exact LeavesMore.map hdone f hf
  | @prefixed _ _ m ps hx hbegins h ih =>
    cases hm with
    | @lexeme _ _ ms hm =>
      have hms : beginsPrefixed ms = true := by
        cases hm
        exact hbegins
      obtain ⟨us, hus, f, hf, hskip⟩ := skipOperand_of_prefixed hx hms hw
      obtain ⟨mid', hdone, hends⟩ := ih hm hus hend hmore hmid
      refine ⟨mid', ?_, hends⟩
      show LeavesMore (skipOperand (significant ts)) mid'
      rw [hskip]
      exact LeavesMore.map hdone f hf
  | operand h ih => exact ih hm hw hend hmore hmid
  | @join c c' op ps qs hop h hothers ih ihothers =>
    obtain ⟨first, others, rfl, hfirst, hothers'⟩ := hm.split
    rw [List.map_append, List.map_cons] at hw
    obtain ⟨us, hfirstw, hothersw⟩ := hw.split
    -- the operands behind the first one decide where skipping goes on behind that
    obtain ⟨t, vs, hsig, _, _, ht, hvs⟩ := hothersw.significant
    obtain ⟨mid₁, hskip₁, hends₁, hlater₁⟩ := ihothers hothers' hvs hend hmore hmid
    have hgo : goesOn .simple true false (mark op) = false := by
      rcases List.mem_cons.mp hop with rfl | hop
      · rfl
      · rw [List.mem_singleton.mp hop]
        rfl
    obtain ⟨mid₂, hskip₂, hends₂, hlater₂⟩ := ih hfirst hfirstw (endsBefore_of_written hothersw hgo)
      (skipMore_of_join hop hsig ht hskip₁) (hends₁.settled hmid)
    refine ⟨mid₂, hskip₂, ?_⟩
    cases c with
    | true => exact ⟨hends₂, fun _ => Nat.lt_of_le_of_lt hothersw.suffix.length_le (hlater₂ rfl)⟩
    | false =>
      obtain rfl : mid₂ = mid₁ := hends₂
      exact ⟨hends₁, hlater₁⟩
  | whole h ih =>
    obtain ⟨mid', hskip, hends⟩ := ih hm hw hend hmore hmid
    obtain ⟨m, ps', rfl, hhead, _⟩ := form_head h
    cases hm
    exact ⟨mid', skipType_of_first (firstOperand_of_head (hhead nofun) hw) hskip, hends⟩
  | leading hop h ih =>
    cases hm with
    | lexeme hm =>
      obtain ⟨t, us, hsig, _, _, ht, hrest⟩ := hw.significant
      obtain ⟨mid', hskip, hends⟩ := ih hm hrest hend hmore hmid
      exact ⟨mid', skipType_of_first (firstOperand_of_leading hop hsig ht) hskip, hends⟩

theorem skips_of_form {part : TypePart} {ps : List Piece} {ms : List Lexeme} (h : TypeForm NestedPieces part cut ps) (hm : Merges ps ms)
    (hw : Written (ms.map typed) ts rest) (hend : EndsBefore .simple true false rest) (hmore : Leaves (skipMore rest) mid)
    (hmid : Leaves (skipMore mid) mid) : ∃ mid', SkipsForm part ts mid' ∧ EndsAt cut mid mid' := by
  obtain ⟨mid', hskip, hends, _⟩ := skips_within_form h hm hw hend hmore hmid
  exact ⟨mid', hskip, hends⟩

/-- Before what does not go on with a type, `skipType` skips exactly the type if and only if it is not cut. -/
theorem skipType_exact_iff {ps : List Piece} {ms : List Lexeme} (h : TypeForm NestedPieces .whole cut ps) (hm : Merges ps ms)
    (hw : Written (ms.map typed) ts rest) (hend : EndsBefore .whole true true rest) :
    ∃ r, skipType ts = .ok r ∧ (r.tokens = rest ↔ cut = false) := by
  have hdone : Leaves (skipMore rest) rest := skipMore_of_end hend (isOpen_whole true)
  obtain ⟨mid, ⟨r, hr, rfl⟩, hends⟩ := skips_of_form h hm hw (hend.of_isOpen nofun) hdone hdone
  refine ⟨r, hr, ?_⟩
  cases cut with
  | false => exact ⟨fun _ => rfl, fun _ => hends⟩
  | true =>
    -- what is left begins with a suffix, which does not follow the type
    refine ⟨fun heq => ?_, nofun⟩
    have hhead : (lexemes r.tokens).head? = some (mark "[") := hends
    rw [heq] at hhead
    exact absurd (hend _ hhead) (by decide)

/-- Tokens that say the type and then what does not go on with it. -/
theorem written_before {ms others : List Lexeme} {next : Lexeme} (hshape : ∀ t ∈ ts, t.Shaped) (h : lexemes ts = ms ++ next :: others)
    (hnext : goesOn .whole true true next = false) : ∃ rest, Written (ms.map typed) ts rest ∧ EndsBefore .whole true true rest := by
  have hglued : ∀ s ∈ ms.map typed, s.glued = false := by
    intro s hs
    obtain ⟨m, _, rfl⟩ := List.mem_map.mp hs
    rfl
  have hsame : lexemes ts = (ms.map typed).map Sym.lexeme ++ next :: others := by
    rw [h, List.map_map]
    exact congrArg (· ++ _) (List.map_id ms).symm
  obtain ⟨rest, hw, hrest⟩ := exists_written_of_lexemes hglued hshape hsame
  refine ⟨rest, hw, fun m hm => ?_⟩
  rw [hrest] at hm
  exact Option.some.inj hm ▸ hnext

/-- The first token of a source and what the others say. -/
theorem exists_cons_of_tokenize (content : String) (m : Lexeme) (ms : List Lexeme)
    (h : (tokenize content.toList 0 .first).map (fun ts => (ts.head?.map Token.lexeme, lexemes ts.tail)) = .ok (some m, ms)) :
    ∃ t us, tokenize content.toList 0 .first = .ok (t :: us) ∧ t.lexeme = m ∧ lexemes us = ms ∧ ∀ u ∈ t :: us, u.Shaped := by
  obtain ⟨ts, hlex, htokens⟩ := Eraser.ok_of_map h
  obtain ⟨hhead, hlexemes⟩ := Prod.mk.inj htokens
  cases ts with
  | nil => nomatch hhead
  | cons t us => exact ⟨t, us, hlex, Option.some.inj hhead, hlexemes, shaped_of_lexFrom (lexFrom_of_tokenize hlex)⟩

theorem skipType_exact_iff_union : ∃ ps ms ts rest, TypeForm NestedPieces .whole false ps ∧ Merges ps ms ∧
    tokenize "A<B<C>>[] | -1 = y".toList 0 .first = .ok ts ∧ Written (ms.map typed) ts rest ∧ EndsBefore .whole true true rest ∧
      ∃ r, skipType ts = .ok r ∧ r.tokens = rest := by
  have hname : "A" ∉ typePrefixes := by decide
  have hop : "|" ∈ ["|", "&"] := by decide
  have hinner : Between false (.lexeme (word "B") :: inAngles [.lexeme (word "C")]) :=
    .leaf rfl rfl rfl rfl nofun (.angles (.leaf rfl rfl rfl rfl nofun (.nil false)) (.nil false))
  have harray : TypeForm NestedPieces .simple false _ :=
    .primary (.applied hname .nil hinner) (.cons nestedPieces_nil .nil)
  have hform : TypeForm NestedPieces .whole (false || false) _ :=
    .whole (.join hop (.simple harray) (.operand (.simple (.negative (m := (.number, "1")) rfl))))
  have hmerges : Merges _ [word "A", mark "<", word "B", mark "<", word "C", mark ">>", mark "[", mark "]", mark "|", mark "-",
      (.number, "1")] :=
    .lexeme (.lexeme (.lexeme (.lexeme (.lexeme (.two (.lexeme (.lexeme (.lexeme (.lexeme (.lexeme .nil))))))))))
  obtain ⟨ts, hlex, hlexemes⟩ : ∃ ts, tokenize "A<B<C>>[] | -1 = y".toList 0 .first = .ok ts ∧
      lexemes ts = [word "A", mark "<", word "B", mark "<", word "C", mark ">>", mark "[", mark "]", mark "|", mark "-",
        (.number, "1")] ++ mark "=" :: [word "y"] := by
    refine Eraser.ok_of_map ?_
    cbv
  obtain ⟨rest, hw, hend⟩ := written_before (shaped_of_lexFrom (lexFrom_of_tokenize hlex)) hlexemes rfl
  obtain ⟨r, hr, hexact⟩ := skipType_exact_iff hform hmerges hw hend
  exact ⟨_, _, ts, rest, hform, hmerges, hlex, hw, hend, r, hr, hexact.mpr rfl⟩

/-- Behind the number nothing is read, and the brackets stay in the code. -/
theorem skipType_negativeArray : ∃ ps ms ts rest, TypeForm NestedPieces .whole true ps ∧ Merges ps ms ∧
    tokenize "-1[] = y".toList 0 .first = .ok ts ∧ Written (ms.map typed) ts rest ∧ EndsBefore .whole true true rest ∧
      (∃ r, skipType ts = .ok r ∧ r.tokens ≠ rest) ∧ erase "let x: -1[] = y;" = .ok ⟨"let x[] = y;", []⟩ := by
  have hform : TypeForm NestedPieces .whole true _ :=
    .whole (.operand (.simple (.negativeArray (m := (.number, "1")) rfl nestedPieces_nil .nil)))
  have hmerges : Merges _ [mark "-", (.number, "1"), mark "[", mark "]"] := .lexeme (.lexeme (.lexeme (.lexeme .nil)))
  obtain ⟨ts, hlex, hlexemes, hleft⟩ : ∃ ts, tokenize "-1[] = y".toList 0 .first = .ok ts ∧
      lexemes ts = [mark "-", (.number, "1"), mark "[", mark "]"] ++ mark "=" :: [word "y"] ∧
        (skipType ts).map (lexemes ·.tokens) = .ok [mark "[", mark "]", mark "=", word "y"] := by
    refine ⟨[⟨.punctuation, "-", 0, ⟨1, 1⟩⟩, ⟨.number, "1", 1, ⟨1, 2⟩⟩, ⟨.punctuation, "[", 2, ⟨1, 3⟩⟩, ⟨.punctuation, "]", 3, ⟨1, 4⟩⟩,
      ⟨.blank, " ", 4, ⟨1, 5⟩⟩, ⟨.punctuation, "=", 5, ⟨1, 6⟩⟩, ⟨.blank, " ", 6, ⟨1, 7⟩⟩, ⟨.identifier, "y", 7, ⟨1, 8⟩⟩], ?_, rfl, ?_⟩
    · cbv
    · cbv
  obtain ⟨rest, hw, hend⟩ := written_before (shaped_of_lexFrom (lexFrom_of_tokenize hlex)) hlexemes rfl
  obtain ⟨r, hr, hleft⟩ := Eraser.ok_of_map hleft
  refine ⟨_, _, ts, rest, hform, hmerges, hlex, hw, hend, ⟨r, hr, ?_⟩, by cbv⟩
  rintro rfl
  have hhead : (lexemes r.tokens).head? = some (mark "[") := by rw [hleft]; rfl
  exact absurd (hend _ hhead) (by decide)

end Skipping

end ScriptLoader.Syntax
