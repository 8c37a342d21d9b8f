import ScriptLoader.Json.Text

/-!
# Tokens of JSON

A document is read as marks, texts and other scalars. Blanks between tokens are dropped; numbers have no zeros in front, and `NaN` and
the infinities count as numbers.
-/

namespace ScriptLoader.Json

/-- A token. Of the scalars only texts have a value that matters. -/
inductive Token where
  | openCurly
  | closeCurly
  | openSquare
  | closeSquare
  | comma
  | colon
  | text (s : List Char)
  | scalar
  deriving DecidableEq, Repr

/-- A blank between tokens. -/
def isBlank (c : Char) : Bool := c = ' ' || c = '\t' || c = '\n' || c = '\r'

/-- The marks. -/
def mark? (c : Char) : Option Token :=
  if c = '{' then some .openCurly
  else if c = '}' then some .closeCurly
  else if c = '[' then some .openSquare
  else if c = ']' then some .closeSquare
  else if c = ',' then some .comma
  else if c = ':' then some .colon
  else none

/-- The words that are scalars. -/
def scalarWords : List (List Char) :=
  ["true".toList, "false".toList, "null".toList, "NaN".toList, "Infinity".toList, "-Infinity".toList]

/-- What follows at least one digit. -/
def afterDigits? (cs : List Char) : Option (List Char) :=
  if (cs.head?).any Char.isDigit then some (cs.dropWhile Char.isDigit) else none

/-- What follows the digits of a whole number: a lone zero, or digits that begin with another one. -/
def afterWhole? (cs : List Char) : Option (List Char) :=
  if cs.head? = some '0' then some (cs.drop 1) else afterDigits? cs

/-- What follows a fraction, if there is one. -/
def afterFraction? (cs : List Char) : Option (List Char) :=
  if cs.head? = some '.' then afterDigits? (cs.drop 1) else some cs

/-- What follows an exponent, if there is one. -/
def afterExponent? (cs : List Char) : Option (List Char) :=
  if cs.head? = some 'e' || cs.head? = some 'E' then
    let cs := cs.drop 1
    afterDigits? (if cs.head? = some '+' || cs.head? = some '-' then cs.drop 1 else cs)
  else some cs

/-- The most characters that the whole part of a number has, its sign among them. -/
def wholeLimit : Nat := 4300

/-- What follows a number. -/
def afterNumber? (cs : List Char) : Option (List Char) := do
  let behind ← afterWhole? (if cs.head? = some '-' then cs.drop 1 else cs)
  if wholeLimit + behind.length < cs.length then none
  else
    let behind ← afterFraction? behind
    afterExponent? behind

/-- What follows a scalar that is no text. -/
def afterScalar? (cs : List Char) : Option (List Char) :=
  match scalarWords.find? (·.isPrefixOf cs) with
  | some w => some (cs.drop w.length)
  | none => afterNumber? cs

/-- The tokens of a document, if it has nothing else; `n` bounds the number of characters. -/
def tokensWithin : Nat → List Char → Option (List Token)
  | 0, cs => if cs.isEmpty then some [] else none
  | n + 1, cs =>
    match cs with
    | [] => some []
    | c :: rest =>
      if isBlank c then tokensWithin n rest
      else
        match mark? c with
        | some t => (tokensWithin n rest).map (t :: ·)
        | none =>
          if c = '\x22' then
            match readText rest with
            | some (s, rest) => (tokensWithin n rest).map (.text s :: ·)
            | none => none
          else
            match afterScalar? (c :: rest) with
            | some rest => (tokensWithin n rest).map (.scalar :: ·)
            | none => none

/-- The tokens of a document. -/
def tokens (cs : List Char) : Option (List Token) := tokensWithin cs.length cs

end ScriptLoader.Json
