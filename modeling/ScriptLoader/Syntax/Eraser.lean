import ScriptLoader.Text.Blank
import ScriptLoader.Syntax.Declaration
import ScriptLoader.Syntax.Lexer
import ScriptLoader.Syntax.Specifier

/-!
# The eraser

Type syntax is erased in one walk over the tokens of a source. The walk keeps a token or skips some; it never makes text of its
own, except that a regular expression, which the lexer reads as a division, is put together into one token, and what follows it
is lexed again. What a colon, a question mark or an angle bracket means is decided from the brackets that are open, from the
tokens kept last, and from the next tokens.

`Eraser.step` is one step of the walk. Each step leaves less of the source (`Next`), so the walk ends.
-/

namespace ScriptLoader.Syntax

open ScriptLoader.Text

/-- What is known of a bracket that is open, or of the whole source. -/
structure Frame where
  /-- The kind of bracket; none for the whole source. -/
  bracket : Option Bracket
  /-- The last token kept before the bracket, trivia aside. -/
  before : Option String
  /-- The bracket is the body of a class. -/
  classBody : Bool
  /-- A declaration of variables has begun and no semicolon has ended it. -/
  declaring : Bool
  /-- Question marks that wait for their colon. -/
  conditions : Nat
  /-- Case labels that wait for their colon. -/
  caseLabels : Nat
  deriving DecidableEq, Repr

namespace Frame

/-- The whole source. -/
def top : Frame := ⟨none, none, false, false, 0, 0⟩

/-- A bracket that opens now. -/
def opening (b : Bracket) (before : Option String) (classBody : Bool) : Frame := ⟨some b, before, classBody, false, 0, 0⟩

/-- The frame is a pair of round brackets. -/
def isRound (f : Frame) : Bool := f.bracket == some .round

end Frame

/-- The state of the walk. `passed` and `rest` are the tokens on either side of the walk, `kept` the tokens that go into the
output; `passed`, `kept` and `specifiers` have the latest first. -/
structure Eraser where
  passed : List Token
  rest : List Token
  kept : List Token
  /-- The innermost open bracket. -/
  frame : Frame
  /-- The brackets around it, innermost first. -/
  outer : List Frame
  /-- The bracket closed last. -/
  closed : Option Frame
  /-- A class has begun and its body has not. -/
  classAhead : Bool
  specifiers : List Specifier

namespace Eraser

/-! ## What was kept last -/

/-- The token kept last, trivia aside, as the front of the tokens kept up to it. -/
def keptMeaning (e : Eraser) : List Token := significant e.kept

/-- The text of the token kept last, trivia aside. -/
def previousText (e : Eraser) : Option String := headText e.keptMeaning

/-- The text of the last but one token kept, trivia aside. -/
def previousText₂ (e : Eraser) : Option String := headText (significant e.keptMeaning.tail)

/-- A line break was kept after the last token that is no trivia. -/
def brokeLine (e : Eraser) : Bool := (e.kept.takeWhile Token.isTrivia).any Token.breaksLine

/-- A line break was kept between the last two tokens that are no trivia, or there is only one such token. -/
def brokeLineBefore (e : Eraser) : Bool :=
  match e.keptMeaning with
  | [] => false
  | _ :: ts => (ts.takeWhile Token.isTrivia).any Token.breaksLine || (significant ts).isEmpty

/-- Tokens after which a statement begins. -/
def boundaries : List String := [";", "\x7b", "\x7d", "export"]

/-- A statement may begin here. -/
def atStatementStart (e : Eraser) : Bool :=
  match e.previousText with
  | none => true
  | some s => boundaries.contains s || e.brokeLine

/-- Words after which an expression goes on. -/
def expressionWords : List String :=
  ["return", "typeof", "void", "delete", "await", "yield", "new", "in", "of", "instanceof", "case", "throw", "else", "do",
   "extends"]

/-- The tokens kept so far may be a whole expression. -/
def expressionEnded (e : Eraser) : Bool :=
  match e.keptMeaning with
  | [] => false
  | t :: _ =>
    if t.kind = .identifier then !expressionWords.contains t.text
    else t.isLiteral || [")", "]", "\x7d"].contains t.text

/-- A member of the class body may begin after the token `previous`. -/
def afterMember (previous : Option String) : Bool :=
  match previous with
  | none => true
  | some s => ["\x7b", ";", "\x7d", "static"].contains s

/-- The token before a parameter. -/
def beforeParameter (previous : Option String) : Bool := previous == some "(" || previous == some "," || previous == some "..."

/-! ## Moves -/

/-- A state of the walk with less of the source to come than `ts`. -/
abbrev Next (ts : List Token) := {e : Eraser // weight e.rest < weight ts}

/-- The walk goes on at `r`, and what stands before that is not kept. -/
def skipTo (e : Eraser) {ts : List Token} (r : Tail ts) : Next ts :=
  ⟨{ e with passed := (ts.take (ts.length - r.tokens.length)).reverse ++ e.passed, rest := r.tokens },
    weight_lt_of_suffix r.suffix r.shorter⟩

/-- The walk goes on at `r`, and all that stands before that is kept. -/
def keepTo (e : Eraser) {ts : List Token} (r : Tail ts) : Next ts :=
  skipTo { e with kept := (ts.take (ts.length - r.tokens.length)).reverse ++ e.kept } r

/-- The first token is kept. -/
def keep (e : Eraser) (t : Token) (ts : List Token) : Next (t :: ts) :=
  ⟨{ e with passed := t :: e.passed, rest := ts, kept := t :: e.kept }, by simp [t.width_pos]⟩

/-- Forgets blank space kept last. -/
def dropBlanks (e : Eraser) : Eraser := { e with kept := e.kept.dropWhile (·.kind == .blank) }

/-- Forgets an `export` kept last, for a declaration that is not kept. -/
def retractExport (e : Eraser) : Eraser :=
  if e.previousText = some "export" then { e with kept := e.keptMeaning.tail } else e

/-- Records a module specifier. -/
def note (e : Eraser) (text : String) (line : Nat) : Eraser := { e with specifiers := ⟨text, line⟩ :: e.specifiers }

/-- A string without its quotes. -/
def unquoted (s : String) : String := String.ofList ((s.toList.drop 1).dropLast)

/-! ## Comments -/

/-- Takes a fixed text from the front. -/
def afterText? (text : String) (cs : List Char) : Option (List Char) :=
  if text.toList.isPrefixOf cs then some (cs.drop text.toList.length) else none

/-- The path in a comment of the form `/// <reference path="...">`. -/
def referencePath? (comment : String) : Option String := do
  let cs ← afterText? "///" comment.toList
  let cs ← afterText? "<reference" (cs.dropWhile isBlank)
  let trimmed := cs.dropWhile isBlank
  if trimmed.length = cs.length then none
  let cs ← afterText? "path" trimmed
  let cs ← afterText? "=" (cs.dropWhile isBlank)
  match cs.dropWhile isBlank with
  | q :: cs =>
    if q = '\x22' || q = '\x27' then
      let path := cs.takeWhile fun c => c != '\x22' && c != '\x27'
      if path.isEmpty || path.length = cs.length then none else some (String.ofList path)
    else none
  | [] => none

/-- A blank or a comment is kept, and a reference comment names a module. -/
def onTrivia (e : Eraser) (t : Token) (ts : List Token) : Next (t :: ts) :=
  if t.kind = .lineComment then
    match referencePath? t.text with
    | some path => keep (e.note (relativeSpecifier path) t.position.line) t ts
    | none => keep e t ts
  else keep e t ts

/-! ## Module declarations -/

/-- Keeps an import up to and with its module specifier. -/
def copyImport (e : Eraser) : (ts : List Token) → Except Refusal {e' : Eraser // weight e'.rest ≤ weight ts}
  | [] => refuseAtEnd (.unexpectedEnd "import declaration")
  | t :: ts =>
    if t.text = "=" then refuseAt (.unsupported "import = require()") (t :: ts)
    else
      let kept := keep e t ts
      if t.kind = .string then .ok ⟨kept.1.note (unquoted t.text) t.position.line, Nat.le_of_lt kept.2⟩
      else
        match copyImport kept.1 ts with
        | .ok e' => .ok ⟨e'.1, Nat.le_trans e'.2 (by simp)⟩
        | .error f => .error f

/-- An import of types alone. -/
def importsType (afterImport : List Token) : Bool :=
  let first := significant afterImport
  let second := significant first.tail
  headIn first ["type"] &&
    (headIn second ["\x7b", "*"] || (headIsName second && !headIn second ["from"]))

/-- What follows the clause of an export: names in curly brackets, or a star, perhaps with a name. -/
def skipExportClause (ts : List Token) : Except Refusal (Rest ts) :=
  let start := (Rest.whole ts).significant
  if headIn start.tokens ["\x7b"] then (skipBracket .curly start.tokens).map (·.toRest.widen start.suffix)
  else
    let star := start.tail
    if headIn star.significant.tokens ["as"] then .ok star.significant.tail.significant.tail else .ok star

/-- Keeps an export clause, and the module specifier behind it if there is one. -/
def copyExport (e : Eraser) (t : Token) (ts : List Token) : Except Refusal (Next (t :: ts)) :=
  match skipExportClause ts with
  | .error f => .error f
  | .ok r =>
    let word := r.significant
    let module := word.tail.significant
    match h : module.tokens with
    | name :: us =>
      if headIn word.tokens ["from"] && name.kind = .string then
        .ok (keepTo (e.note (unquoted name.text) name.position.line)
          (Rest.afterHead ⟨us, (List.suffix_cons name us).trans (h ▸ module.suffix)⟩))
      else .ok (keepTo e r.afterHead)
    | [] => .ok (keepTo e r.afterHead)

/-! ## Identifiers -/

/-- Words that begin a declaration of variables. -/
def declarationWords : List String := ["var", "let", "const"]

/-- Words before a class member that are erased. -/
def memberModifiers : List String := ["public", "private", "protected", "readonly", "override"]

/-- Skips the types that a class implements. -/
def skipImplemented (ts : List Token) : Except Refusal (Tail ts) :=
  match skipType ts with
  | .error e => .error e
  | .ok r =>
    match h : significant r.tokens with
    | comma :: us =>
      if comma.text = "," then
        (skipImplemented us).map fun r' =>
          r'.widen ((List.suffix_cons comma us).trans ((h ▸ significant_suffix r.tokens).trans r.suffix))
      else .ok r
    | [] => .ok r
termination_by ts.length
decreasing_by
  have hr := r.shorter
  have hs := (significant_suffix r.tokens).length_le
  rw [h, List.length_cons] at hs
  omega

/-- A declaration that begins at a statement start: one that is skipped or copied as a whole, or one that cannot be erased. Nothing
where the word begins no such declaration. -/
def onStatement (e : Eraser) (t : Token) (ts : List Token) : Except Refusal (Option (Next (t :: ts))) :=
  let next := significant ts
  let afterNext := significant next.tail
  if t.text = "interface" && headIsName next then
    (skipInterface ts).map fun r => some (skipTo e.retractExport r.afterHead)
  else if t.text = "type" && headIsName next && headIn afterNext ["=", "<"] then
    let named := (Rest.whole ts).significant.tail
    (skipTypeAlias named.tokens).map fun r => some (skipTo e.retractExport (named.andThen r).afterHead)
  else if t.text = "declare" && headIsName next then
    (skipStatement 0 ts).map fun r => some (skipTo e.retractExport r.afterHead)
  else if (t.text = "enum" && headIsName next) || (t.text = "const" && headIn next ["enum"]) then
    refuseAt (.unsupported "enum") (t :: ts)
  else if (t.text = "namespace" || t.text = "module") && (headIsName next || headKind next = some .string) &&
      headIn afterNext ["\x7b", "."] then
    refuseAt (.unsupported t.text) (t :: ts)
  else if t.text = "import" && !headIn next ["(", "."] then
    if importsType ts then .ok (some (skipTo e (skipModuleStatement 0 ts).afterHead))
    else
      let kept := keep e t ts
      (copyImport kept.1 ts).map fun e' => some ⟨e'.1, Nat.lt_of_le_of_lt e'.2 (by simp [t.width_pos])⟩
  else if t.text = "export" && headIn next ["type"] && headIn afterNext ["\x7b", "*"] then
    .ok (some (skipTo e (skipModuleStatement 0 ts).afterHead))
  else if t.text = "export" && headIn next ["\x7b", "*"] then (copyExport e t ts).map some
  else .ok none

/-- What a kept word says about what follows. -/
def noteWord (e : Eraser) (word : String) (next : List Token) : Eraser :=
  if declarationWords.contains word then { e with frame := { e.frame with declaring := true } }
  else if word = "class" && (headIsName next || headIn next ["\x7b"]) then { e with classAhead := true }
  else if word = "case" then { e with frame := { e.frame with caseLabels := e.frame.caseLabels + 1 } }
  else e

/-- A word inside a statement: a modifier, a cast and a list of implemented types are skipped, any other word is kept. -/
def onWord (e : Eraser) (t : Token) (ts : List Token) : Except Refusal (Next (t :: ts)) :=
  let next := significant ts
  let beforeName := headIsName next || headIn next ["[", "#"]
  if memberModifiers.contains t.text && beforeName && e.frame.isRound &&
      (e.previousText = some "(" || e.previousText = some ",") then
    refuseAt (.unsupported "parameter property") (t :: ts)
  else if memberModifiers.contains t.text && beforeName && e.frame.classBody &&
      (afterMember e.previousText || e.brokeLine) then
    .ok (skipTo e (Tail.ofCons t ts).significant)
  else if (t.text = "as" || t.text = "satisfies") && e.expressionEnded &&
      (headIsName next || headKind next = some .string || headIn next ["\x7b", "(", "["]) then
    (skipType ts).map fun r => skipTo e.dropBlanks r.toRest.afterHead
  else if t.text = "implements" && e.classAhead then
    (skipImplemented ts).map fun r => skipTo e.dropBlanks r.toRest.afterHead
  else .ok (keep (e.noteWord t.text next) t ts)

/-- A parameter that only types the receiver of a call, `this: T`, with the comma behind it. -/
def skipReceiver (ts : List Token) : Except Refusal (Tail ts) :=
  let receiver := (Rest.whole ts).significant.tail
  (skipType receiver.tokens).map fun r =>
    let typed : Tail ts := r.widen receiver.suffix
    if headIn typed.significant.tokens [","] then typed.significant.tail.significant else typed

/-- An identifier or a keyword. -/
def onIdentifier (e : Eraser) (t : Token) (ts : List Token) : Except Refusal (Next (t :: ts)) :=
  if e.previousText = some "." || e.previousText = some "?." then .ok (keep e t ts)
  else if t.text = "this" && e.frame.isRound && e.previousText = some "(" && headIn (significant ts) [":"] then
    (skipReceiver ts).map fun r => skipTo e r.toRest.afterHead
  else if e.atStatementStart then
    match onStatement e t ts with
    | .error f => .error f
    | .ok (some e') => .ok e'
    | .ok none => onWord e t ts
  else onWord e t ts

/-! ## Punctuation -/

/-- A question mark that marks a parameter or a class member as optional. -/
def marksOptional (e : Eraser) (next : List Token) : Bool :=
  headIsName e.keptMeaning &&
    if e.frame.isRound && beforeParameter e.previousText₂ then headIn next [":", ",", ")", "="]
    else e.frame.classBody && (afterMember e.previousText₂ || e.brokeLineBefore) && headIn next [":", ";", "=", "("]

/-- An exclamation mark right behind an expression asserts that it is not null. -/
def assertsNonNull (e : Eraser) : Bool :=
  match e.kept with
  | [] => false
  | t :: _ => !t.isTrivia && e.expressionEnded

/-- A colon that has a type behind it. -/
def annotates (e : Eraser) : Bool :=
  e.frame.conditions = 0 && e.frame.caseLabels = 0 &&
    match e.keptMeaning with
    | [] => false
    | t :: _ =>
      if t.kind = .identifier then
        (e.frame.isRound && beforeParameter e.previousText₂) ||
          (e.frame.declaring && e.previousText₂.any fun s => declarationWords.contains s || s = ",") ||
          e.frame.classBody
      else
        match e.closed with
        | none => false
        | some f =>
          (t.text = ")" && f.isRound) ||
            ((t.text = "\x7d" || t.text = "]") &&
              (f.before.any declarationWords.contains || (e.frame.isRound && beforeParameter f.before)))

/-- A list in angle brackets that is erased, with `after` what follows it: before a call or parameters, behind the name of a class,
or behind the name of the class that is extended. -/
def isTypeParameterList (e : Eraser) (after : List Token) : Bool :=
  headIn after ["("] || (headIsName e.keptMeaning && e.previousText₂ = some "class") ||
    (e.classAhead && e.previousText₂ = some "extends")

/-- A bracket opens. -/
def onOpening (e : Eraser) (b : Bracket) (t : Token) (ts : List Token) : Next (t :: ts) :=
  let classBody := b == .curly && e.classAhead
  keep { e with
    frame := Frame.opening b e.previousText classBody
    outer := e.frame :: e.outer
    classAhead := e.classAhead && !classBody } t ts

/-- A bracket closes, which must be the innermost one that is open. -/
def onClosing (e : Eraser) (b : Bracket) (t : Token) (ts : List Token) : Except Refusal (Next (t :: ts)) :=
  match e.outer with
  | f :: outer =>
    if e.frame.bracket = some b then .ok (keep { e with frame := f, outer, closed := some e.frame } t ts)
    else refuseAt (.unmatchedBracket t.text) (t :: ts)
  | [] => refuseAt (.unmatchedBracket t.text) (t :: ts)

/-- A colon that has no type behind it ends the first arm of a condition, or else a case label. -/
def onColon (e : Eraser) : Eraser :=
  let f := e.frame
  { e with frame := if f.conditions ≠ 0 then { f with conditions := f.conditions - 1 }
                    else { f with caseLabels := f.caseLabels - 1 } }

/-- A mark or an operator. -/
def onMark (e : Eraser) (t : Token) (ts : List Token) : Except Refusal (Next (t :: ts)) :=
  if t.text = "?" then
    if e.marksOptional (significant ts) then .ok (skipTo e (Tail.ofCons t ts))
    else .ok (keep { e with frame := { e.frame with conditions := e.frame.conditions + 1 } } t ts)
  else if t.text = "!" && e.assertsNonNull then .ok (skipTo e (Tail.ofCons t ts))
  else if t.text = ":" then
    if e.annotates then (skipType ts).map fun r => skipTo e r.toRest.afterHead
    else .ok (keep e.onColon t ts)
  else if t.text = "<" then
    match matchAngle (t :: ts) with
    | some r => if e.isTypeParameterList (significant r.tokens) then .ok (skipTo e r) else .ok (keep e t ts)
    | none => .ok (keep e t ts)
  else
    match Bracket.opened? t.text, Bracket.closed? t.text with
    | some b, _ => .ok (onOpening e b t ts)
    | none, some b => onClosing e b t ts
    | none, none =>
      if t.text = ";" then .ok (keep { e with frame := { e.frame with declaring := false } } t ts) else .ok (keep e t ts)

/-- A regular expression of `n` characters begins at the first token: it becomes one token, which is kept, and what follows it is
lexed again. -/
def onRegex (e : Eraser) (t : Token) (ts : List Token) (n : Nat) (hn : 0 < n) : Except Refusal (Next (t :: ts)) :=
  let text := sourceText (t :: ts)
  let literal := text.take n
  match hl : lexFrom ⟨t.position.line, t.position.column + literal.length⟩ (t.start + literal.length) (text.drop n) with
  | .error s => .error ⟨.strayCharacter s.char, some s.position⟩
  | .ok us =>
    let regex : Token := ⟨.regex, String.ofList literal, t.start, t.position⟩
    .ok ⟨{ e with passed := regex :: e.passed, rest := us, kept := regex :: e.kept }, by
      have hw := length_sourceText_le_weight (t :: ts)
      have ht := t.width_pos
      show weight us < _
      rw [weight_lexFrom hl, List.length_drop]
      simp only [text, weight_cons] at hw ⊢
      omega⟩

/-- Punctuation: a slash where no expression has ended may begin a regular expression. -/
def onPunctuation (e : Eraser) (t : Token) (ts : List Token) : Except Refusal (Next (t :: ts)) :=
  if (t.text = "/" || t.text = "/=") && !e.expressionEnded then
    match h : regexLength (sourceText (t :: ts)) with
    | some n => onRegex e t ts n (regexLength_pos h)
    | none => onMark e t ts
  else onMark e t ts

/-! ## The walk -/

/-- One step, at the token `t`. -/
def step (e : Eraser) (t : Token) (ts : List Token) : Except Refusal (Next (t :: ts)) :=
  if t.isTrivia then .ok (onTrivia e t ts)
  else if t.kind = .identifier then onIdentifier e t ts
  else if t.kind = .punctuation then onPunctuation e t ts
  else .ok (keep e t ts)

/-- The walk is over: no bracket may be open. -/
def finish (e : Eraser) : Except Refusal Eraser :=
  match e.frame.bracket with
  | some b => refuseAtEnd (.unmatchedBracket b.opener)
  | none => .ok e

/-- A refusal without a place is placed at the last token. -/
def locate (e : Eraser) (r : Refusal) : Refusal :=
  match r.place with
  | some _ => r
  | none => { r with place := (e.rest.getLast?.or e.passed.head?).map (·.position) }

/-- Walks to the end. -/
def walk (e : Eraser) : Except Refusal Eraser :=
  match hrest : e.rest with
  | [] => (finish e).mapError e.locate
  | t :: ts =>
    match step e t ts with
    | .error r => .error (e.locate r)
    | .ok e' =>
      have : weight e'.1.rest < weight e.rest := by rw [hrest]; exact e'.2
      walk e'.1
termination_by weight e.rest

/-- The state before the walk. -/
def start (ts : List Token) : Eraser := ⟨[], ts, [], .top, [], none, false, []⟩

/-- The text of the tokens kept. -/
def output (e : Eraser) : String := String.join (e.kept.reverse.map (·.text))

end Eraser

/-- A source without its type syntax, and the module specifiers that it names, in the order of the source. -/
structure Erased where
  code : String
  specifiers : List Specifier
  deriving DecidableEq, Repr

/-- Erases the type syntax of a source. -/
def erase (content : String) : Except Refusal Erased :=
  match tokenize content.toList 0 .first with
  | .error s => .error ⟨.strayCharacter s.char, some s.position⟩
  | .ok ts => (Eraser.walk (Eraser.start ts)).map fun e => ⟨e.output, e.specifiers.reverse⟩

end ScriptLoader.Syntax
