import ScriptLoader.Text.Digit
import ScriptLoader.Syntax.Token

/-!
# The lexer

A source is cut into tokens from left to right. Each class of token is given by how many characters a token of the class takes
at the start of a text; the classes are tried in a fixed order and the first that matches wins. A text at whose start no class
matches has a stray character. Since a token is the first characters of what is left, the texts of the tokens are the source
(`sourceText_lexFrom`), and each token takes at least one character, so the lexer ends.
-/

namespace ScriptLoader.Syntax

open ScriptLoader.Text

/-! ## Character classes -/

/-- The blanks of a source. -/
def isBlankChar (c : Char) : Bool :=
  c == ' ' || c == '\t' || c == '\x0c' || c == '\x0b' || c == '\r' || c == '\n' || c == '\u00a0' || c == '\ufeff'

/-- ASCII letters, digits and the underscore go on with a number. -/
def isNumberPart (c : Char) : Bool := c.isAlphanum || c == '_'

/-- Letters, the underscore, the dollar sign and the upper part of the basic plane begin a name. -/
def isNameStart (c : Char) : Bool :=
  c.isAlpha || c == '_' || c == '$' || (0xc0 ≤ c.toNat && c.toNat ≤ 0xffff)

/-- What begins a name goes on with it, and so does an ASCII digit. -/
def isNamePart (c : Char) : Bool := isNameStart c || c.isDigit

/-- How many characters of the class stand at the start. -/
def run (p : Char → Bool) (cs : List Char) : Nat := (cs.takeWhile p).length

/-! ## The length of a token of each class -/

/-- Characters up to and with the end of a block comment whose start is already read. -/
def commentEnd : List Char → Option Nat
  | '*' :: '/' :: _ => some 2
  | _ :: cs => (commentEnd cs).map (· + 1)
  | [] => none

/-- Characters up to and with the closing quote. A backslash takes the next character with it, whatever that is; only where
`multiline` holds may a line break stand for itself. -/
def quoteEnd (quote : Char) (multiline : Bool) : List Char → Option Nat
  | '\\' :: _ :: cs => (quoteEnd quote multiline cs).map (· + 2)
  | c :: cs =>
    if c = '\\' then none
    else if c = quote then some 1
    else if c = '\n' && !multiline then none
    else (quoteEnd quote multiline cs).map (· + 1)
  | [] => none

def lineCommentLength : List Char → Option Nat
  | '/' :: '/' :: cs => some (2 + run (· != '\n') cs)
  | _ => none

def blockCommentLength : List Char → Option Nat
  | '/' :: '*' :: cs => (commentEnd cs).map (· + 2)
  | _ => none

/-- A string stands between double quotes or between single quotes, on one line. -/
def stringLength : List Char → Option Nat
  | c :: cs => if c = '\x22' || c = '\x27' then (quoteEnd c false cs).map (· + 1) else none
  | [] => none

/-- A template stands between backquotes (U+0060). What it substitutes is not looked at. -/
def templateLength : List Char → Option Nat
  | c :: cs => if c = '\x60' then (quoteEnd c true cs).map (· + 1) else none
  | [] => none

def blankLength (cs : List Char) : Option Nat :=
  match run isBlankChar cs with
  | 0 => none
  | n => some n

/-- The end of a number from a point on: word characters, then perhaps a point and word characters. -/
def numberRest (cs : List Char) : Nat :=
  let whole := run isNumberPart cs
  match cs.drop whole with
  | '.' :: more => whole + 1 + run isNumberPart more
  | _ => whole

/-- A number begins with a digit of any script, perhaps after a point. -/
def numberLength : List Char → Option Nat
  | '.' :: d :: cs => if isDecimalDigit d then some (2 + numberRest cs) else none
  | d :: cs => if isDecimalDigit d then some (1 + numberRest cs) else none
  | [] => none

def nameLength : List Char → Option Nat
  | c :: cs => if isNameStart c then some (1 + run isNamePart cs) else none
  | [] => none

/-- The operators of more than one character, longer ones first. -/
def operators : List (List Char) :=
  ["...", ">>>=", ">>>", "===", "!==", "**=", "<<=", ">>=", "&&=", "||=", "??=", "=>", "==", "!=", "<=", ">=", "&&", "||",
   "??", "?.", "++", "--", "+=", "-=", "*=", "/=", "%=", "&=", "|=", "^=", "**", "<<", ">>"].map String.toList

/-- Marks of one character. -/
def marks : List Char := "\x7b\x7d()[];,.<>+-*/%&|^!~?:=@#\\".toList

/-- The operator stands here. A question mark and a point before a digit are no operator: the point belongs to the number. -/
def operatorAt (cs op : List Char) : Bool :=
  op.isPrefixOf cs && !(op == ['?', '.'] && ((cs.drop 2).head?.any isDecimalDigit))

def punctuationLength (cs : List Char) : Option Nat :=
  match operators.find? (operatorAt cs) with
  | some op => some op.length
  | none =>
    match cs with
    | c :: _ => if marks.contains c then some 1 else none
    | [] => none

/-- The classes in the order in which they are tried, each with the length of its token. -/
def lexemeLength (cs : List Char) : Option (TokenKind × Nat) :=
  (lineCommentLength cs).map (.lineComment, ·) <|>
  (blockCommentLength cs).map (.blockComment, ·) <|>
  (stringLength cs).map (.string, ·) <|>
  (templateLength cs).map (.template, ·) <|>
  (blankLength cs).map (.blank, ·) <|>
  (numberLength cs).map (.number, ·) <|>
  (nameLength cs).map (.identifier, ·) <|>
  (punctuationLength cs).map (.punctuation, ·)

/-! ## A whole source -/

/-- A character that begins no token, and where it stands. -/
structure Stray where
  char : Char
  position : Position
  deriving DecidableEq, Repr

/-- The tokens of a text of which the first character stands at `p`, with `start` characters before it. A class may not match an
empty piece, so each token takes a character at least. -/
def lexFrom (p : Position) (start : Nat) (cs : List Char) : Except Stray (List Token) :=
  match cs with
  | [] => .ok []
  | c :: rest =>
    match lexemeLength (c :: rest) with
    | none => .error ⟨c, p⟩
    | some (kind, n) =>
      let lexeme := (c :: rest).take (max 1 n)
      match lexFrom (p.advance lexeme) (start + lexeme.length) (rest.drop (n - 1)) with
      | .error e => .error e
      | .ok ts => .ok (⟨kind, String.ofList lexeme, start, p⟩ :: ts)
termination_by cs.length
decreasing_by simp only [List.length_drop, List.length_cons]; omega

/-- The tokens of `content` from the character numbered `start` on, which stands at `p`. Where the whole content is lexed, the
first token stands at the first position, and `p` only says where a stray character is reported. -/
def tokenize (content : List Char) (start : Nat) (p : Position) : Except Stray (List Token) :=
  match lexFrom p start (content.drop start) with
  | .error e => .error e
  | .ok ts => if start = 0 then lexFrom .first 0 content else .ok ts

/-- The texts of the tokens, put together, are the text that was lexed. -/
theorem sourceText_lexFrom {p : Position} {start : Nat} {cs : List Char} {ts : List Token}
    (h : lexFrom p start cs = .ok ts) : sourceText ts = cs := by
  fun_induction lexFrom p start cs generalizing ts with
  | case1 => simp_all
  | case2 => simp at h
  | case3 => simp_all
  | case4 p start c rest kind n _ lexeme us =>
    rename_i hus ih
    injection h with h
    subst h
    have hl : (c :: rest).drop (max 1 n) = rest.drop (n - 1) := by
      cases n with
      | zero => rfl
      | succ n => rw [Nat.max_eq_right (Nat.succ_le_succ (Nat.zero_le n))]; rfl
    have := List.take_append_drop (max 1 n) (c :: rest)
    simp only [sourceText_cons, String.toList_ofList, ih hus, lexeme]
    rw [← hl, this]

/-- A token that the lexer makes is as wide as its text. -/
theorem weight_lexFrom {p : Position} {start : Nat} {cs : List Char} {ts : List Token}
    (h : lexFrom p start cs = .ok ts) : weight ts = cs.length := by
  fun_induction lexFrom p start cs generalizing ts with
  | case1 => simp_all
  | case2 => simp at h
  | case3 => simp_all
  | case4 p start c rest kind n _ lexeme us =>
    rename_i hus ih
    injection h with h
    subst h
    simp only [weight_cons, ih hus, Token.width, String.toList_ofList, lexeme, List.length_take, List.length_cons,
      List.length_drop]
    omega

/-! ## Regular expression literals -/

/-- Characters up to and with the bracket that closes a class of characters. -/
def classEnd : List Char → Option Nat
  | '\\' :: c :: cs => if c = '\n' then none else (classEnd cs).map (· + 2)
  | c :: cs => if c = ']' then some 1 else if c = '\\' || c = '\n' then none else (classEnd cs).map (· + 1)
  | [] => none

/-- Characters up to and with the slash that ends the body of a regular expression. Inside a class in square brackets a slash is
a character like any other. -/
def regexBodyEnd (cs : List Char) : Option Nat :=
  match cs with
  | [] => none
  | c :: rest =>
    if c = '/' then some 1
    else if c = '\n' then none
    else if c = '\\' then
      match rest with
      | d :: more => if d = '\n' then none else (regexBodyEnd more).map (· + 2)
      | [] => none
    else if c = '[' then
      match classEnd rest with
      | some n => (regexBodyEnd (rest.drop n)).map (· + (n + 1))
      | none => none
    else (regexBodyEnd rest).map (· + 1)
termination_by cs.length
decreasing_by all_goals (simp only [List.length_cons, List.length_drop]; omega)

/-- The length of the regular expression literal that begins at this slash: its body, on one line and not empty, and its flags.
What begins like a comment is none. -/
def regexLength : List Char → Option Nat
  | '/' :: c :: cs =>
    if c = '*' || c = '/' then none
    else (regexBodyEnd (c :: cs)).map fun n => 1 + n + run Char.isAlpha ((c :: cs).drop n)
  | _ => none

theorem regexLength_pos {cs : List Char} {n : Nat} (h : regexLength cs = some n) : 0 < n := by
  unfold regexLength at h
  split at h
  · split at h
    · simp at h
    · obtain ⟨m, _, rfl⟩ := Option.map_eq_some_iff.mp h
      omega
  · simp at h

end ScriptLoader.Syntax
