import ScriptLoader.Process.Machine

/-!
# Scripts as trees

A command of a script and the words in it. A word is a list of parts: characters, quotes, and places where the value of a parameter, the
output of a command or the value of an expression is put in. Quotes stay in a word, because an empty word in quotes is a word, and because
what is put in between quotes is not cut.
-/

namespace ScriptLoader.Shell

/-- How the value of a parameter is used: as it is, as its length, without a part that matches a pattern at its beginning or its end,
or together with a word that stands for a missing value, or is used only where there is one. `invalid` is what no one knows. -/
inductive Use where
  | invalid
  | value
  | default
  | alternative
  | complaint
  | assignment
  | length
  | withoutEnd (longest : Bool)
  | withoutStart (longest : Bool)
  deriving DecidableEq, Repr

/-- What a redirection does to a file. -/
abbrev FileUse := Opening

mutual

/-- A part of a word: a character, one that was quoted and means nothing but itself, a quote, or a place. A parameter that `orEmpty` marks
counts as missing when it is empty. -/
inductive Part where
  | char (c : Char)
  | literal (c : Char)
  | quote
  | parameter (name : Raw) (use : Use) (orEmpty : Bool) (word : List Part)
  | command (script : Tree)
  | arithmetic (word : List Part)

/-- A redirection of a descriptor: to a file, to what another descriptor stands for, or to a document in the script. The file that
`mayReplace` does not mark must be new where the shell is told to be careful. -/
inductive Redirection where
  | file (descriptor : Nat) (how : FileUse) (mayReplace : Bool) (name : List Part)
  | duplicate (descriptor : Nat) (source : List Part)
  | document (descriptor : Nat) (number : Nat) (expanded : Bool)

/-- A command. Those that can go wrong have the number of their line. -/
inductive Tree where
  | nothing
  | simple (line : Nat) (assignments words : List (List Part)) (redirections : List Redirection)
  | pipeline (commands : List Tree)
  | background (command : Tree)
  | subshell (line : Nat) (command : Tree) (redirections : List Redirection)
  | redirected (line : Nat) (command : Tree) (redirections : List Redirection)
  | sequence (first second : Tree)
  | both (first second : Tree)
  | either (first second : Tree)
  | negation (command : Tree)
  | branch (condition yes no : Tree)
  | loop (untilTrue : Bool) (condition body : Tree)
  | each (line : Nat) (name : Raw) (words : List (List Part)) (body : Tree)
  | choice (line : Nat) (subject : List Part) (cases : List (List (List Part) × Tree))
  | definition (line : Nat) (name : Raw) (body : Tree)

end

/-- The text of a word without anything quoted or put in. -/
def plainText? (word : List Part) : Option Raw :=
  word.mapM fun p =>
    match p with
    | .char c => some c
    | _ => none

/-- The characters of a word, whether they are quoted or not. -/
def textOf (word : List Part) : Raw :=
  word.filterMap fun p =>
    match p with
    | .char c | .literal c => some c
    | _ => none

/-- The word is an assignment: a name, an equals sign, and anything. -/
def isAssignment (word : List Part) : Bool :=
  let name := word.takeWhile fun p =>
    match p with
    | .char c => Raw.isNameChar c
    | _ => false
  (plainText? name).any Raw.isName &&
    match word.drop name.length with
    | .char '=' :: _ => true
    | _ => false

end ScriptLoader.Shell
