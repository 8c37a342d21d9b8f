import ScriptLoader.Process.Raw

/-!
# Patterns

A pattern is matched against a whole text: `*` stands for any text, `?` for any character, and brackets for one of a set of characters.
Characters that were quoted stand for themselves. `matches_many` and `matches_literal` say what the parts of a pattern do.
-/

namespace ScriptLoader.Shell

/-- A character of a word, and whether it was quoted. -/
structure Glyph where
  char : Char
  quoted : Bool
  deriving DecidableEq, Repr

/-- The text of glyphs. -/
def glyphText (gs : List Glyph) : Raw := gs.map (·.char)

/-- What stands in brackets: characters, ranges and named classes. -/
inductive SetMember where
  | range (first last : Char)
  | named (name : Raw)
  deriving DecidableEq, Repr

/-- A part of a pattern. -/
inductive PatternItem where
  | exactly (c : Char)
  | any
  | many
  | set (negated : Bool) (members : List SetMember)
  deriving DecidableEq, Repr

/-- The names of the classes of characters. -/
def classNames : List String :=
  ["alnum", "alpha", "blank", "cntrl", "digit", "graph", "lower", "print", "punct", "space", "upper", "xdigit"]

/-- The character belongs to a named class. -/
def inClass (name : Raw) (c : Char) : Bool :=
  match String.ofList name with
  | "alnum" => c.isAlphanum
  | "alpha" => c.isAlpha
  | "blank" => c = ' ' || c = '\t'
  | "cntrl" => c.toNat < 0x20 || c.toNat = 0x7f
  | "digit" => c.isDigit
  | "graph" => '!' ≤ c && c ≤ '~'
  | "lower" => c.isLower
  | "print" => ' ' ≤ c && c ≤ '~'
  | "punct" => '!' ≤ c && c ≤ '~' && !c.isAlphanum
  | "space" => Raw.isSpace c
  | "upper" => c.isUpper
  | "xdigit" => c.isDigit || ('a' ≤ c && c ≤ 'f') || ('A' ≤ c && c ≤ 'F')
  | _ => false

/-- The character is one of a member of a set. -/
def SetMember.accepts (m : SetMember) (c : Char) : Bool :=
  match m with
  | range a b => a ≤ c && c ≤ b
  | named name => inClass name c

/-- A single character can stand in the place of the item. -/
def PatternItem.accepts (i : PatternItem) (c : Char) : Bool :=
  match i with
  | exactly x => x = c
  | any => true
  | many => true
  | set negated members => (members.any (·.accepts c)) != negated

/-- The ends of a text, the longest first. -/
def endings : Raw → List Raw
  | [] => [[]]
  | c :: cs => (c :: cs) :: endings cs

/-- The pattern matches the text. -/
def matchesItems : List PatternItem → Raw → Bool
  | [], cs => cs.isEmpty
  | .many :: is, cs => (endings cs).any (matchesItems is)
  | i :: is, c :: cs => i.accepts c && matchesItems is cs
  | _ :: _, [] => false

theorem mem_endings (cs suffix : Raw) : suffix ∈ endings cs ↔ suffix <:+ cs := by
  induction cs with
  | nil => simp [endings]
  | cons c cs ih => simp [endings, ih, List.suffix_cons_iff]

/-- A star matches any text in front of what the rest matches. -/
theorem matches_many (is : List PatternItem) (cs : Raw) :
    matchesItems (.many :: is) cs = true ↔ ∃ suffix, suffix <:+ cs ∧ matchesItems is suffix = true := by
  simp [matchesItems, mem_endings]

/-- Characters that stand for themselves match their text and nothing else. -/
theorem matches_literal (text cs : Raw) : matchesItems (text.map .exactly) cs = true ↔ cs = text := by
  induction text generalizing cs with
  | nil => simp [matchesItems]
  | cons c text ih =>
    cases cs with
    | nil => simp [matchesItems]
    | cons d cs =>
      simp only [List.map_cons, matchesItems, PatternItem.accepts, Bool.and_eq_true, decide_eq_true_eq, ih, List.cons.injEq]
      exact and_congr_left fun _ => eq_comm

/-- The character is this one and not quoted. -/
def Glyph.is (g : Glyph) (c : Char) : Bool := g.char = c && !g.quoted

/-- The glyph that a character of a set stands for, and what follows: a backslash takes the meaning of the next one. -/
def setChar (g : Glyph) (gs : List Glyph) : Char × List Glyph :=
  if g.is '\\' then
    match gs with
    | h :: gs => (h.char, gs)
    | [] => ('\\', [])
  else (g.char, gs)

/-- The named class at the front of `gs`, behind its opening bracket, and what follows. -/
def classAt? (gs : List Glyph) : Option (Raw × List Glyph) :=
  match gs with
  | colon :: gs =>
    let name := gs.takeWhile fun g => g.char.isAlpha
    match gs.drop name.length with
    | c :: b :: rest =>
      if colon.is ':' && c.is ':' && b.is ']' && classNames.contains (String.ofList (glyphText name)) then
        some (glyphText name, rest)
      else none
    | _ => none
  | [] => none

/-- The members of a set up to its closing bracket, and what follows; the first glyph closes nothing. `n` bounds the number of members. -/
def setMembers (first : Bool) : Nat → List Glyph → Option (List SetMember × List Glyph)
  | 0, _ => none
  | _, [] => none
  | n + 1, g :: gs =>
    if g.is ']' && !first then some ([], gs)
    else
      match if g.is '[' then classAt? gs else none with
      | some (name, rest) => (setMembers false n rest).map fun r => (.named name :: r.1, r.2)
      | none =>
        let (a, rest) := setChar g gs
        match rest with
        | dash :: h :: more =>
          if dash.is '-' && !h.is ']' then
            let (b, more) := setChar h more
            (setMembers false n more).map fun r => (.range a b :: r.1, r.2)
          else (setMembers false n rest).map fun r => (.range a a :: r.1, r.2)
        | _ => (setMembers false n rest).map fun r => (.range a a :: r.1, r.2)

/-- The set behind its opening bracket, and what follows. -/
def setAt? (gs : List Glyph) : Option (PatternItem × List Glyph) :=
  let negated := (gs.head?).any (·.is '!')
  let inside := if negated then gs.drop 1 else gs
  (setMembers true (inside.length + 1) inside).map fun r => (.set negated r.1, r.2)

/-- The items of a pattern; `n` bounds their number. -/
def patternWithin : Nat → List Glyph → List PatternItem
  | 0, _ => []
  | _, [] => []
  | n + 1, g :: gs =>
    if g.quoted then .exactly g.char :: patternWithin n gs
    else if g.char = '*' then .many :: patternWithin n gs
    else if g.char = '?' then .any :: patternWithin n gs
    else if g.char = '\\' then
      match gs with
      | h :: gs => .exactly h.char :: patternWithin n gs
      | [] => [.exactly '\\']
    else if g.char = '[' then
      match setAt? gs with
      | some (item, gs) => item :: patternWithin n gs
      | none => .exactly '[' :: patternWithin n gs
    else .exactly g.char :: patternWithin n gs

/-- The items of a pattern. -/
def pattern (gs : List Glyph) : List PatternItem := patternWithin gs.length gs

/-- The pattern matches the text. -/
def matchesPattern (gs : List Glyph) (cs : Raw) : Bool := matchesItems (pattern gs) cs

/-- The text without the shortest or the longest part that the pattern matches at its beginning. -/
def trimStart (longest : Bool) (gs : List Glyph) (cs : Raw) : Raw :=
  let items := pattern gs
  let lengths := List.range (cs.length + 1)
  match (if longest then lengths.reverse else lengths).find? fun n => matchesItems items (cs.take n) with
  | some n => cs.drop n
  | none => cs

/-- The text without the shortest or the longest part that the pattern matches at its end. -/
def trimEnd (longest : Bool) (gs : List Glyph) (cs : Raw) : Raw :=
  let items := pattern gs
  let lengths := List.range (cs.length + 1)
  match (if longest then lengths else lengths.reverse).find? fun n => matchesItems items (cs.drop n) with
  | some n => cs.take n
  | none => cs

end ScriptLoader.Shell
