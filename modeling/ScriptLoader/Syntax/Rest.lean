import ScriptLoader.Syntax.Token

/-!
# What is left of a token list

A function that skips tokens answers what is left of the list it was given. The answer carries the proof that it is an end part
of that list (`Rest`) and, where at least one token was taken, that it is shorter (`Tail`), so that skipping can be repeated and
nested and still ends. A function that cannot go on answers a `Refusal`.
-/

namespace ScriptLoader.Syntax

/-- Why a source is refused. -/
inductive Fault where
  /-- A character that begins no token. -/
  | strayCharacter (c : Char)
  /-- A bracket without its partner. -/
  | unmatchedBracket (bracket : String)
  /-- The source ends, or goes on in another way, within the construct named. -/
  | unexpectedEnd (reading : String)
  /-- A construct that means something at run time and so cannot be erased. -/
  | unsupported (construct : String)
  deriving DecidableEq, Repr

/-- A fault with the place where it shows; without a place it shows at the last token of the source. -/
structure Refusal where
  fault : Fault
  place : Option Position
  deriving DecidableEq, Repr

/-- A fault at the first of these tokens, or at the last token of the source if none is left. -/
def refuseAt {α : Type} (fault : Fault) (ts : List Token) : Except Refusal α :=
  .error ⟨fault, ts.head?.map (·.position)⟩

/-- A fault at the last token of the source. -/
def refuseAtEnd {α : Type} (fault : Fault) : Except Refusal α := .error ⟨fault, none⟩

/-- An end part of `ts`. -/
structure Rest (ts : List Token) where
  tokens : List Token
  suffix : tokens <:+ ts

/-- An end part of `ts` without its first token. -/
structure Tail (ts : List Token) extends Rest ts where
  shorter : tokens.length < ts.length

namespace Rest

theorem length_le {ts : List Token} (r : Rest ts) : r.tokens.length ≤ ts.length := r.suffix.length_le

/-- The whole list. -/
def whole (ts : List Token) : Rest ts := ⟨ts, List.suffix_refl ts⟩

/-- What is left of an end part is left of the list. -/
def widen {us ts : List Token} (h : us <:+ ts) (r : Rest us) : Rest ts := ⟨r.tokens, r.suffix.trans h⟩

/-- Skipping went on where it had stopped. -/
def andThen {ts : List Token} (r : Rest ts) (r' : Rest r.tokens) : Rest ts := r'.widen r.suffix

/-- What is left after a first token and more. -/
def afterHead {t : Token} {ts : List Token} (r : Rest ts) : Tail (t :: ts) :=
  ⟨r.widen (List.suffix_cons t ts), Nat.lt_succ_of_le r.length_le⟩

/-- Trivia are skipped. -/
def significant {ts : List Token} (r : Rest ts) : Rest ts :=
  ⟨Syntax.significant r.tokens, (significant_suffix _).trans r.suffix⟩

/-- One token is skipped, if there is one. -/
def tail {ts : List Token} (r : Rest ts) : Rest ts := ⟨r.tokens.tail, (List.tail_suffix _).trans r.suffix⟩

end Rest

namespace Tail

/-- The list without its first token. -/
def ofCons (t : Token) (ts : List Token) : Tail (t :: ts) := (Rest.whole ts).afterHead

/-- What is left of an end part is left of the list. -/
def widen {us ts : List Token} (h : us <:+ ts) (r : Tail us) : Tail ts :=
  ⟨r.toRest.widen h, Nat.lt_of_lt_of_le r.shorter h.length_le⟩

/-- Skipping went on where it had stopped. -/
def andThen {ts : List Token} (r : Tail ts) (r' : Rest r.tokens) : Tail ts :=
  ⟨r.toRest.andThen r', Nat.lt_of_le_of_lt r'.length_le r.shorter⟩

/-- Trivia are skipped. -/
def significant {ts : List Token} (r : Tail ts) : Tail ts :=
  r.andThen ((Rest.whole r.tokens).significant)

/-- One token is skipped, if there is one. -/
def tail {ts : List Token} (r : Tail ts) : Tail ts := r.andThen ((Rest.whole r.tokens).tail)

end Tail

end ScriptLoader.Syntax
