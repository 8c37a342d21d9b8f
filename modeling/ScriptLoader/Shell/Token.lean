import ScriptLoader.Shell.Tree

/-!
# Tokens of scripts

A script is read as words, words that are keywords where a command may begin, marks, and redirections.
-/

namespace ScriptLoader.Shell

/-- A keyword. -/
inductive Keyword where
  | not
  | caseWord
  | doWord
  | done
  | elifWord
  | elseWord
  | esac
  | fi
  | forWord
  | ifWord
  | inWord
  | thenWord
  | untilWord
  | whileWord
  | openBrace
  | closeBrace
  deriving DecidableEq, Repr

namespace Keyword

/-- How the keywords are written. -/
def spellings : List (String × Keyword) :=
  [("!", not), ("case", caseWord), ("do", doWord), ("done", done), ("elif", elifWord), ("else", elseWord), ("esac", esac), ("fi", fi),
   ("for", forWord), ("if", ifWord), ("in", inWord), ("then", thenWord), ("until", untilWord), ("while", whileWord),
   ("\x7b", openBrace), ("\x7d", closeBrace)]

/-- The keyword that a text is. -/
def ofText? (text : Raw) : Option Keyword := spellings.lookup (String.ofList text)

/-- How a keyword is written. -/
def text (k : Keyword) : String := ((spellings.find? (·.2 = k)).map (·.1)).getD ""

/-- Every keyword is the keyword of its text. -/
theorem ofText?_text (k : Keyword) : ofText? k.text.toList = some k := by cases k <;> decide

/-- A keyword that ends the commands before it. -/
def isEnd : Keyword → Bool
  | doWord | done | elifWord | elseWord | esac | fi | thenWord | closeBrace => true
  | _ => false

end Keyword

/-- A redirection that still lacks its word: to a file, to another descriptor, or to a document, whose tabs may be dropped. -/
inductive RedirectionHead where
  | file (descriptor : Nat) (how : FileUse) (mayReplace : Bool)
  | duplicate (descriptor : Nat)
  | document (descriptor : Nat) (dropTabs : Bool)
  deriving DecidableEq, Repr

/-- A token. A word tells whether anything in it was quoted. -/
inductive Token where
  | endOfFile
  | newline
  | semicolon
  | ampersand
  | andIf
  | orIf
  | bar
  | openParenthesis
  | closeParenthesis
  | doubleSemicolon
  | redirection (head : RedirectionHead)
  | keyword (k : Keyword)
  | word (parts : List Part) (quoted : Bool)

namespace Token

/-- How a token is named in a complaint. -/
def name : Token → String
  | endOfFile => "end of file"
  | newline => "newline"
  | semicolon => "\x22;\x22"
  | ampersand => "\x22&\x22"
  | andIf => "\x22&&\x22"
  | orIf => "\x22||\x22"
  | bar => "\x22|\x22"
  | openParenthesis => "\x22(\x22"
  | closeParenthesis => "\x22)\x22"
  | doubleSemicolon => "\x22;;\x22"
  | redirection _ => "redirection"
  | keyword k => "\x22" ++ k.text ++ "\x22"
  | word _ _ => "word"

/-- A token that ends the commands before it. -/
def isEnd : Token → Bool
  | endOfFile | closeParenthesis | doubleSemicolon => true
  | keyword k => k.isEnd
  | _ => false

/-- The token is this keyword. -/
def isKeyword (t : Token) (k : Keyword) : Bool :=
  match t with
  | keyword j => j = k
  | _ => false

/-- The word that a token is, also of a keyword; no others have one. -/
def parts : Token → List Part
  | word parts _ => parts
  | keyword k => k.text.toList.map .char
  | _ => []

end Token

/-- What is wrong with a script. -/
inductive SyntaxFault where
  | unexpected (token : String)
  | expecting (token wanted : String)
  | openQuote
  | openBrace
  | openArithmetic
  | openBackquote
  | loopVariable
  | functionName
  | descriptor
  | tooDeep
  deriving DecidableEq, Repr

/-- The longest report about a token. -/
def maxReport : Nat := 63

/-- The report of a fault. -/
def SyntaxFault.message : SyntaxFault → Raw
  | unexpected token => (token ++ " unexpected").toList.take maxReport
  | expecting token wanted => (token ++ " unexpected (expecting " ++ wanted ++ ")").toList.take maxReport
  | openQuote => "Unterminated quoted string"
  | openBrace => "Missing '\x7d'"
  | openArithmetic => "Missing '))'"
  | openBackquote => "EOF in backquote substitution"
  | loopVariable => "Bad for loop variable"
  | functionName => "Bad function name"
  | descriptor => "Bad fd number"
  | tooDeep => "Too many nested commands"

end ScriptLoader.Shell
