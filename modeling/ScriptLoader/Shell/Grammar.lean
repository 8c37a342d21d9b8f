import ScriptLoader.Shell.Scanner

/-!
# Commands of scripts

A script is read one command line at a time (`nextCommand`), so that what stands before a fault has been done when the fault is found. A
command line goes on as long as a command in it is not complete. Documents are read at the end of the line in which they are asked for.
-/

namespace ScriptLoader.Shell.Reading

/-- How the next token is read: past line breaks, and with keywords told from words. -/
structure Look where
  pastLines : Bool
  keywords : Bool
  deriving DecidableEq, Repr

/-- A token as it comes. -/
def Look.plain : Look := ⟨false, false⟩

/-- A token where a command may begin. -/
def Look.command : Look := ⟨false, true⟩

/-- A token where a command may begin, perhaps in a later line. -/
def Look.laterCommand : Look := ⟨true, true⟩

/-- Drops blanks and a comment. -/
def dropBlanks : Nat → Reading Unit
  | 0 => return ()
  | n + 1 => do
    match ← peek with
    | some ' ' | some '\t' =>
      let _ ← nextRaw
      dropBlanks n
    | some '#' => modify fun s => { s with rest := s.rest.dropWhile (· ≠ '\n') }
    | _ => return ()

/-- A redirection behind the digits of its descriptor, if the next character begins one. -/
def redirection (digits : Raw) : Reading RedirectionHead := do
  let descriptor (standard : Nat) : Nat := (Raw.decimal? digits).getD standard
  if (← next) = some '>' then
    let d := descriptor 1
    if ← nextIs '>' then return .file d .append true
    if ← nextIs '|' then return .file d .write true
    if ← nextIs '&' then return .duplicate d
    return .file d .write false
  let d := descriptor 0
  if ← nextIs '<' then return .document d (← nextIs '-')
  if ← nextIs '&' then return .duplicate d
  if ← nextIs '>' then return .file d .update true
  return .file d .read true

/-- The token that is not put back. -/
def newToken (g : Grammar) (isMark : Bool) : Reading Token := do
  dropBlanks (← bound)
  let one (t : Token) : Reading Token := do
    let _ ← nextRaw
    return t
  let two (c : Char) (double single : Token) : Reading Token := do
    let _ ← nextRaw
    return if ← nextIs c then double else single
  match ← peek with
  | none => return .endOfFile
  | some '\n' =>
    countLine
    one .newline
  | some '&' => two '&' .andIf .ampersand
  | some '|' => two '|' .orIf .bar
  | some ';' => two ';' .doubleSemicolon .semicolon
  | some '(' => one .openParenthesis
  | some ')' => one .closeParenthesis
  | some _ =>
    let (parts, quoted) ← word g isMark
    let digits := plainText? parts
    match ← peekRaw with
    | some c =>
      let isNumber := !quoted && digits.any fun ds => ds.length ≤ 1 && ds.all Char.isDigit
      if (c = '<' || c = '>') && isNumber then return .redirection (← redirection (digits.getD []))
      return .word parts quoted
    | none => return .word parts quoted

/-- The next token, whatever it is. -/
def anyToken (g : Grammar) (isMark : Bool) : Reading Token := do
  match (← get).pushed with
  | some t =>
    modify fun s => { s with pushed := none }
    return t
  | none =>
    let t ← newToken g isMark
    modify fun s => { s with last := t }
    return t

/-- Reads the documents that are awaited. -/
def readDocuments (g : Grammar) : List Awaited → Reading Unit
  | [] => return ()
  | a :: rest => do
    let parts ← document g a
    modify fun s => { s with documents := (a.number, parts) :: s.documents }
    readDocuments g rest

/-- Reads the documents of the line that has ended. -/
def endLine (g : Grammar) : Reading Unit := do
  let s ← get
  set { s with awaited := [] }
  readDocuments g s.awaited

/-- The next token that is no line break; `n` bounds the number of line breaks. -/
def pastLines (g : Grammar) : Nat → Token → Reading Token
  | 0, t => return t
  | n + 1, t => do
    match t with
    | .newline =>
      endLine g
      pastLines g n (← anyToken g false)
    | t => return t

/-- Reads a token. -/
def token (g : Grammar) (look : Look) : Reading Token := do
  let t ← anyToken g false
  let t ← if look.pastLines then do pastLines g (← bound) t else pure t
  match t with
  | .word parts false =>
    match if look.keywords then (plainText? parts).bind Keyword.ofText? else none with
    | some k =>
      modify fun s => { s with last := .keyword k }
      return .keyword k
    | none => return t
  | t => return t

/-- Puts the last token back. -/
def again : Reading Unit := modify fun s => { s with pushed := some s.last }

/-- The next token is this keyword; any other one is refused. -/
def require (g : Grammar) (look : Look) (k : Keyword) : Reading Unit := do
  if !(← token g look).isKeyword k then expecting (.keyword k)

/-- Reads the word of a redirection. -/
def redirectionOf (g : Grammar) (head : RedirectionHead) : Reading Redirection := do
  let isMark := match head with
    | .document _ _ => true
    | _ => false
  match ← anyToken g isMark with
  | .word parts quoted =>
    match head with
    | .file d how mayReplace => return .file d how mayReplace parts
    | .duplicate d => return .duplicate d parts
    | .document d dropTabs =>
      let s ← get
      let awaited := s.awaited ++ [Awaited.mk s.nextDocument (textOf parts) dropTabs (!quoted)]
      set { s with awaited, nextDocument := s.nextDocument + 1 }
      return .document d s.nextDocument (!quoted)
  | _ => unexpected

/-- Reads redirections behind a command; `n` bounds their number. -/
def redirections (g : Grammar) : Nat → Look → Reading (List Redirection)
  | 0, _ => return []
  | n + 1, look => do
    match ← token g look with
    | .redirection head =>
      let r ← redirectionOf g head
      return r :: (← redirections g n .plain)
    | _ =>
      again
      return []

/-- The functions that are built into the shell for good. -/
def specialNames : List String :=
  [".", ":", "break", "continue", "eval", "exec", "exit", "export", "local", "readonly", "return", "set", "shift", "times", "trap", "unset"]

/-- What a simple command is made of, each part with the last one first. -/
structure SimpleParts where
  assignments : List (List Part)
  words : List (List Part)
  redirections : List Redirection

/-- Reads a function behind its name. -/
def definition (g : Grammar) (line : Nat) (word : List Part) : Reading Tree := do
  match ← token g .plain with
  | .closeParenthesis => pure ()
  | _ => expecting .closeParenthesis
  match plainText? word with
  | some name =>
    if !Raw.isName name || specialNames.contains (String.ofList name) then fail .functionName
    return .definition line name (← g.command true)
  | none => fail .functionName

/-- Reads a simple command or a function; `n` bounds the number of its words. -/
def simpleFrom (g : Grammar) (line : Nat) (p : SimpleParts) : Nat → Reading Tree
  | 0 => fail .tooDeep
  | n + 1 => do
    match ← token g .plain with
    | .word parts _ =>
      if p.words.isEmpty && isAssignment parts then simpleFrom g line { p with assignments := parts :: p.assignments } n
      else simpleFrom g line { p with words := parts :: p.words } n
    | .redirection head =>
      let r ← redirectionOf g head
      simpleFrom g line { p with redirections := r :: p.redirections } n
    | t =>
      match t, p.words, p.assignments, p.redirections with
      | .openParenthesis, [word], [], [] => definition g (← get).line word
      | _, _, _, _ =>
        again
        return .simple line p.assignments.reverse p.words.reverse p.redirections.reverse

/-- Reads the words of a loop up to the end of the line; `n` bounds their number. -/
def loopWords (g : Grammar) : Nat → Reading (List (List Part))
  | 0 => fail .tooDeep
  | n + 1 => do
    match ← token g .plain with
    | .word parts _ => return parts :: (← loopWords g n)
    | .newline | .semicolon => return []
    | _ => unexpected

/-- All parameters, as if they were written between double quotes. -/
def allParameters : List Part := [.quote, .parameter ['@'] .value false [], .quote]

/-- Reads a loop over words. -/
def eachFrom (g : Grammar) (line : Nat) : Reading Tree := do
  let name ←
    match ← token g .plain with
    | .word parts false => pure (plainText? parts)
    | _ => pure none
  match name.filter Raw.isName with
  | none => fail .loopVariable
  | some name =>
    let words ←
      match ← token g .laterCommand with
      | .keyword .inWord => loopWords g (← bound)
      | .semicolon => pure [allParameters]
      | _ => do
        again
        pure [allParameters]
    require g .laterCommand .doWord
    let body ← g.commands false
    require g .plain .done
    return .each line name words body

/-- Reads the patterns of a case behind the first one; `n` bounds their number. -/
def casePatterns (g : Grammar) : Nat → Reading (List (List Part))
  | 0 => fail .tooDeep
  | n + 1 => do
    match ← token g .plain with
    | .bar =>
      let t ← token g .plain
      return t.parts :: (← casePatterns g n)
    | .closeParenthesis => return []
    | _ => expecting .closeParenthesis

/-- Reads the cases of a choice; `n` bounds their number. -/
def casesFrom (g : Grammar) : Nat → Reading (List (List (List Part) × Tree))
  | 0 => fail .tooDeep
  | n + 1 => do
    let t ← token g .laterCommand
    if t.isKeyword .esac then return []
    let first ← match t with
      | .openParenthesis => token g .plain
      | t => pure t
    let patterns ← casePatterns g (← bound)
    let body ← g.commands true
    let entry := (first.parts :: patterns, body)
    match ← token g .laterCommand with
    | .keyword .esac => return [entry]
    | .doubleSemicolon => return entry :: (← casesFrom g n)
    | _ => expecting .doubleSemicolon

/-- Reads a choice. -/
def choiceFrom (g : Grammar) (line : Nat) : Reading Tree := do
  match ← token g .plain with
  | .word subject _ =>
    require g .laterCommand .inWord
    return .choice line subject (← casesFrom g (← bound))
  | _ => expecting (.word [] false)

/-- Reads a branch behind its first keyword; `n` bounds the number of conditions. -/
def branchFrom (g : Grammar) : Nat → Reading Tree
  | 0 => fail .tooDeep
  | n + 1 => do
    let condition ← g.commands false
    require g .plain .thenWord
    let yes ← g.commands false
    match ← token g .plain with
    | .keyword .elifWord => return .branch condition yes (← branchFrom g n)
    | .keyword .elseWord =>
      let no ← g.commands false
      require g .plain .fi
      return .branch condition yes no
    | _ =>
      again
      require g .plain .fi
      return .branch condition yes .nothing

/-- Reads a loop behind its first keyword. -/
def loopFrom (g : Grammar) (untilTrue : Bool) : Reading Tree := do
  let condition ← g.commands false
  require g .plain .doWord
  let body ← g.commands false
  require g .plain .done
  return .loop untilTrue condition body

/-- Reads a command that begins with a keyword or a parenthesis, if the token does; the line is the one that it began in. -/
def compound? (g : Grammar) (line : Nat) (t : Token) : Reading (Option Tree) := do
  match t with
  | .keyword .ifWord => return some (← branchFrom g (← bound))
  | .keyword .whileWord => return some (← loopFrom g false)
  | .keyword .untilWord => return some (← loopFrom g true)
  | .keyword .forWord => return some (← eachFrom g line)
  | .keyword .caseWord => return some (← choiceFrom g line)
  | .keyword .openBrace =>
    let t ← g.commands false
    require g .plain .closeBrace
    return some t
  | .openParenthesis =>
    let t ← g.commands false
    match ← token g .plain with
    | .closeParenthesis => return some (.subshell line t [])
    | _ => expecting .closeParenthesis
  | _ => return none

/-- A compound command with redirections. -/
def redirectedTree (line : Nat) (t : Tree) (rs : List Redirection) : Tree :=
  match rs, t with
  | [], t => t
  | rs, .subshell line t _ => .subshell line t rs
  | rs, t => .redirected line t rs

/-- Reads a command. -/
def commandFrom (g : Grammar) (look : Look) : Reading Tree := do
  let line := (← get).line
  let t ← token g look
  match ← compound? g line t with
  | some tree => return redirectedTree line tree (← redirections g (← bound) .command)
  | none =>
    match t with
    | .word _ _ | .redirection _ =>
      again
      simpleFrom g (← get).line ⟨[], [], []⟩ (← bound)
    | _ => unexpected

/-- Reads the commands of a pipeline behind the first one; `n` bounds their number. -/
def pipelineRest (g : Grammar) : Nat → Reading (List Tree)
  | 0 => return []
  | n + 1 => do
    match ← token g .plain with
    | .bar =>
      let t ← commandFrom g .laterCommand
      return t :: (← pipelineRest g n)
    | _ =>
      again
      return []

/-- Reads a pipeline. -/
def pipelineFrom (g : Grammar) (look : Look) : Reading Tree := do
  let negated := (← token g look).isKeyword .not
  if !negated then again
  let first ← commandFrom g (if negated then .command else .plain)
  let rest ← pipelineRest g (← bound)
  let t := if rest.isEmpty then first else Tree.pipeline (first :: rest)
  return if negated then .negation t else t

/-- Reads what is joined to a command by its success or failure; `n` bounds the number of commands. -/
def andOrRest (g : Grammar) (t : Tree) : Nat → Reading Tree
  | 0 => return t
  | n + 1 => do
    match ← token g .plain with
    | .andIf => do andOrRest g (.both t (← pipelineFrom g .laterCommand)) n
    | .orIf => do andOrRest g (.either t (← pipelineFrom g .laterCommand)) n
    | _ =>
      again
      return t

/-- Reads commands joined by success and failure. -/
def andOr (g : Grammar) : Reading Tree := do
  let t ← pipelineFrom g .plain
  andOrRest g t (← bound)

/-- Two command lists, one after the other. -/
def sequenceOf : Option Tree → Tree → Tree
  | none, t => t
  | some s, t => .sequence s t

/-- Reads commands up to a token that ends them. On one line a line break ends them too. `before` is what is read so far, `mayEnd` tells
that there need not be another command, and `n` bounds the number of commands. -/
def commandsFrom (g : Grammar) (oneLine : Bool) (before : Option Tree) (mayEnd : Bool) : Nat → Reading (Option Tree)
  | 0 => fail .tooDeep
  | n + 1 => do
    let t ← token g ⟨!oneLine, true⟩
    match t with
    | .newline =>
      endLine g
      return before
    | .endOfFile =>
      endLine g
      modify fun s => { s with pushed := some .endOfFile, last := .endOfFile }
      return before
    | _ =>
      again
      if mayEnd && !oneLine && t.isEnd then return before
      let command ← andOr g
      let t ← token g .plain
      let isBackground := match t with
        | .ampersand => true
        | _ => false
      let all := some (sequenceOf before (if isBackground then .background command else command))
      match t with
      | .endOfFile =>
        endLine g
        modify fun s => { s with pushed := some .endOfFile, last := .endOfFile }
        return all
      | .newline =>
        again
        commandsFrom g oneLine all true n
      | .ampersand | .semicolon => commandsFrom g oneLine all true n
      | _ =>
        if oneLine then unexpected
        again
        return all

/-- How deep commands may be nested. -/
def maxNesting : Nat := 1000

/-- The grammar of commands that are nested so deep. -/
def grammar : Nat → Grammar
  | 0 => ⟨fun _ => fail .tooDeep, fun _ => fail .tooDeep⟩
  | n + 1 =>
    let g := grammar n
    { commands := fun mayBeEmpty => do return (← commandsFrom g false none mayBeEmpty (← bound)).getD .nothing
      command := fun past => commandFrom g ⟨past, true⟩ }

/-- Reads the next command line. Without one the script is at its end; a line may hold no command. -/
def nextCommand : Reading (Option Tree) := do
  let s ← get
  set { s with pushed := none }
  let g := grammar (min s.rest.length maxNesting + 1)
  match ← commandsFrom g true none false (← bound) with
  | some t => return some t
  | none =>
    match (← get).last with
    | .endOfFile => return none
    | _ => return some .nothing

end ScriptLoader.Shell.Reading
