/-!
# Tokens

A token is a piece of source text with its class and the place where it stands. Blanks and comments are tokens too, so that the
texts of all tokens of a source, put together, are the source.
-/

namespace ScriptLoader.Syntax

/-- The class of a token. The lexer makes every class but `regex`, which only the position in a program can tell from a
division. -/
inductive TokenKind where
  | lineComment
  | blockComment
  | string
  | template
  | number
  | identifier
  | blank
  | punctuation
  | regex
  deriving DecidableEq, Repr

/-- A line and a column, both counted from one, in code points. -/
structure Position where
  line : Nat
  column : Nat
  deriving DecidableEq, Repr

namespace Position

/-- Where a text begins. -/
def first : Position := ⟨1, 1⟩

/-- The position after one character. Only a line feed ends a line. -/
def next (p : Position) (c : Char) : Position :=
  if c = '\n' then ⟨p.line + 1, 1⟩ else ⟨p.line, p.column + 1⟩

/-- The position after a piece of text. -/
def advance (p : Position) (cs : List Char) : Position := cs.foldl next p

@[simp] theorem advance_nil (p : Position) : p.advance [] = p := rfl

@[simp] theorem advance_append (p : Position) (xs ys : List Char) : p.advance (xs ++ ys) = (p.advance xs).advance ys :=
  List.foldl_append

end Position

/-- A token: its class, its text, how many code points of the source stand before it, and its position. -/
structure Token where
  kind : TokenKind
  text : String
  start : Nat
  position : Position
  deriving DecidableEq, Repr

namespace Token

/-- Blanks and comments carry no meaning of their own. -/
def isTrivia (t : Token) : Bool :=
  t.kind == .blank || t.kind == .lineComment || t.kind == .blockComment

/-- Strings, templates, numbers and regular expressions stand for a value. -/
def isLiteral (t : Token) : Bool :=
  t.kind == .string || t.kind == .template || t.kind == .number || t.kind == .regex

/-- Blank space with a line break in it. A comment breaks no line here, whatever it holds. -/
def breaksLine (t : Token) : Bool := t.kind == .blank && t.text.toList.contains '\n'

/-- How much of the source a token takes up; at least one code point. -/
def width (t : Token) : Nat := max 1 t.text.toList.length

theorem width_pos (t : Token) : 0 < t.width := Nat.lt_of_lt_of_le Nat.one_pos (Nat.le_max_left ..)

end Token

/-- The text that a list of tokens stands for. -/
def sourceText (ts : List Token) : List Char := ts.flatMap (·.text.toList)

@[simp] theorem sourceText_nil : sourceText [] = [] := rfl

@[simp] theorem sourceText_cons (t : Token) (ts : List Token) : sourceText (t :: ts) = t.text.toList ++ sourceText ts := rfl

@[simp] theorem sourceText_append (ts us : List Token) : sourceText (ts ++ us) = sourceText ts ++ sourceText us :=
  List.flatMap_append

/-- The tokens from the first one that is no trivia on. -/
def significant (ts : List Token) : List Token := ts.dropWhile Token.isTrivia

theorem significant_suffix (ts : List Token) : significant ts <:+ ts := List.dropWhile_suffix _

/-- The text of the first token. -/
def headText (ts : List Token) : Option String := ts.head?.map (·.text)

/-- The class of the first token. -/
def headKind (ts : List Token) : Option TokenKind := ts.head?.map (·.kind)

/-- The first token has one of these texts. -/
def headIn (ts : List Token) (texts : List String) : Bool :=
  match ts with
  | t :: _ => texts.contains t.text
  | [] => false

/-- The first token is an identifier. -/
def headIsName (ts : List Token) : Bool := headKind ts == some .identifier

/-- The total width of a list of tokens. -/
def weight : List Token → Nat
  | [] => 0
  | t :: ts => t.width + weight ts

@[simp] theorem weight_nil : weight [] = 0 := rfl

@[simp] theorem weight_cons (t : Token) (ts : List Token) : weight (t :: ts) = t.width + weight ts := rfl

@[simp] theorem weight_append (ts us : List Token) : weight (ts ++ us) = weight ts + weight us := by
  induction ts with
  | nil => simp
  | cons t ts ih => rw [List.cons_append, weight_cons, weight_cons, ih, Nat.add_assoc]

theorem length_le_weight (ts : List Token) : ts.length ≤ weight ts := by
  induction ts with
  | nil => simp
  | cons t ts ih =>
    have := t.width_pos
    simp only [List.length_cons, weight_cons]
    omega

/-- A shorter end part weighs less. -/
theorem weight_lt_of_suffix {us ts : List Token} (h : us <:+ ts) (hl : us.length < ts.length) : weight us < weight ts := by
  obtain ⟨skipped, rfl⟩ := h
  have := length_le_weight skipped
  rw [List.length_append] at hl
  rw [weight_append]
  omega

/-- No text is lost in the weight. -/
theorem length_sourceText_le_weight (ts : List Token) : (sourceText ts).length ≤ weight ts := by
  induction ts with
  | nil => simp
  | cons t ts ih =>
    simp only [sourceText_cons, List.length_append, weight_cons, Token.width]
    omega

end ScriptLoader.Syntax
