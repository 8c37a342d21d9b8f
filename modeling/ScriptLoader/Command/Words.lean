/-!
# Words of a command line

A command line is cut into words at blanks. Single quotes keep everything up to the next one; double quotes keep everything but a
backslash before a double quote or a backslash; elsewhere a backslash keeps the character behind it.
-/

namespace ScriptLoader.Command

/-- What is wrong with a command line. -/
inductive WordFault where
  | noClosingQuote
  | nothingEscaped
  deriving DecidableEq, Repr

/-- The report of a fault. -/
def WordFault.message : WordFault → String
  | noClosingQuote => "No closing quotation"
  | nothingEscaped => "No escaped character"

/-- Where the reader is: between words, or in a word of which `word` holds the characters so far, the last one first. -/
inductive Place where
  | between
  | plain (word : List Char)
  | single (word : List Char)
  | double (word : List Char)
  deriving DecidableEq, Repr

/-- A blank between words. -/
def isSeparator (c : Char) : Bool := c = ' ' || c = '\t' || c = '\r' || c = '\n'

/-- A word from its characters, the last one first. -/
def wordOf (word : List Char) : String := String.ofList word.reverse

/-- The place behind the character `c`, from outside quotes in the word `word`. -/
def unquoted (word : List Char) (c : Char) : Place :=
  if c = '\'' then .single word else if c = '\x22' then .double word else .plain (c :: word)

/-- The words of the rest of a command line. -/
def readWords : Place → List Char → Except WordFault (List String)
  | .between, [] => .ok []
  | .plain word, [] => .ok [wordOf word]
  | .single _, [] => .error .noClosingQuote
  | .double _, [] => .error .noClosingQuote
  | .between, '\\' :: [] => .error .nothingEscaped
  | .between, '\\' :: c :: cs => readWords (.plain [c]) cs
  | .between, c :: cs => if isSeparator c then readWords .between cs else readWords (unquoted [] c) cs
  | .plain _, '\\' :: [] => .error .nothingEscaped
  | .plain word, '\\' :: c :: cs => readWords (.plain (c :: word)) cs
  | .plain word, c :: cs =>
    if isSeparator c then (readWords .between cs).map (wordOf word :: ·) else readWords (unquoted word c) cs
  | .single word, c :: cs => if c = '\'' then readWords (.plain word) cs else readWords (.single (c :: word)) cs
  | .double _, '\\' :: [] => .error .nothingEscaped
  | .double word, '\\' :: c :: cs =>
    if c = '\x22' || c = '\\' then readWords (.double (c :: word)) cs else readWords (.double (c :: '\\' :: word)) cs
  | .double word, c :: cs => if c = '\x22' then readWords (.plain word) cs else readWords (.double (c :: word)) cs

/-- The words of a command line. -/
def words (s : String) : Except WordFault (List String) := readWords .between s.toList

end ScriptLoader.Command
