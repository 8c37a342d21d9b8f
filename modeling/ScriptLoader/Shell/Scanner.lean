import ScriptLoader.Shell.Script

/-!
# Words of scripts

A word is read character by character with the quotes and places that are open. Each place in braces or parentheses has a level of its own:
what a quote means inside it does not depend on the quotes around it.
-/

namespace ScriptLoader.Shell

/-- What reads commands inside a word. -/
structure Grammar where
  commands : (mayBeEmpty : Bool) → Reading Tree
  command : (look : Bool) → Reading Tree

/-- What characters mean: outside quotes, between double or single quotes, or in an expression. -/
inductive Mode where
  | plain
  | double
  | single
  | arithmetic
  deriving DecidableEq, Repr

/-- A level: what characters mean, whether they are inside double quotes or an expression, the open braces and those of them that were
opened there, whether a quote was opened inside the braces, whether the level belongs to its braces, and the open parentheses. -/
structure Level where
  mode : Mode
  doubled : Bool
  braces : Nat
  doubledBraces : Nat
  innerQuote : Bool
  ofBraces : Bool
  parentheses : Nat
  deriving DecidableEq, Repr

/-- A level with nothing open. -/
def Level.fresh (mode : Mode) (ofBraces : Bool) : Level := ⟨mode, mode ≠ .plain && mode ≠ .single, 0, 0, false, ofBraces, 0⟩

/-- A piece of a word, in the order of the text: a part, or the beginning or the end of a place. -/
inductive Piece where
  | part (p : Part)
  | openParameter (name : Raw) (use : Use) (orEmpty : Bool)
  | openArithmetic
  | close

/-- A word while it is read, the last piece first. A document has a line that ends it, and tells whether tabs are dropped. -/
structure Word where
  level : Level
  outer : List Level
  pieces : List Piece
  quoted : Bool
  document : Option (Raw × Bool)
  isMark : Bool
  ended : Bool

namespace Word

/-- Nothing is read. -/
def start (mode : Mode) (document : Option (Raw × Bool)) (isMark : Bool) : Word :=
  ⟨.fresh mode false, [], [], false, document, isMark, false⟩

/-- The word with one more piece. -/
def add (w : Word) (p : Piece) : Word := { w with pieces := p :: w.pieces }

/-- The word with a character that means nothing else here. -/
def addChar (w : Word) (c : Char) : Word :=
  w.add (.part (if w.level.mode = .double || w.level.mode = .single then .literal c else .char c))

/-- The word with a quote, which documents do not have. -/
def addQuote (w : Word) : Word := if w.document.isSome then w else w.add (.part .quote)

/-- The word with a change to its level. -/
def change (w : Word) (f : Level → Level) : Word := { w with level := f w.level }

/-- The word on a new level. -/
def push (w : Word) (l : Level) : Word := { w with level := l, outer := w.level :: w.outer }

/-- The word on the level outside. -/
def pop (w : Word) : Word :=
  match w.outer with
  | l :: outer => { w with level := l, outer }
  | [] => w

/-- Behind a double quote inside braces. -/
def toggleInner (w : Word) : Word := if w.level.braces = 0 then w else w.change fun l => { l with innerQuote := !l.innerQuote }

/-- Behind a quote that opens. -/
def openQuote (w : Word) (mode : Mode) : Word :=
  let w := w.change fun l => { l with mode, doubled := l.doubled || mode = .double }
  (if mode = .double then w.toggleInner else w).addQuote

/-- Behind a quote that closes. -/
def closeQuote (w : Word) (c : Char) : Word :=
  if w.document.isSome && w.level.braces = 0 then w.addChar c
  else
    let w := if w.level.doubledBraces = 0 then w.change fun l => { l with mode := .plain, doubled := false } else w
    let w := { w with quoted := true }
    (if c = '\x22' then w.toggleInner else w).addQuote

/-- Behind a closing brace. -/
def closeBrace (w : Word) : Word :=
  if w.level.innerQuote || w.level.braces = 0 then w.addChar '\x7d'
  else
    let w := w.change fun l => { l with braces := l.braces - 1 }
    let w := if w.level.braces = 0 && w.level.ofBraces then w.pop
      else w.change fun l => { l with doubledBraces := l.doubledBraces - 1 }
    w.add .close

/-- A backslash before `c` stays where it is. -/
def keepsBackslash (w : Word) (c : Char) : Bool :=
  w.level.doubled && c ≠ '\\' && c ≠ '\x60' && c ≠ '$' && (c ≠ '\x22' || (w.document.isSome && w.level.braces = 0)) &&
    (c ≠ '\x7d' || w.level.braces = 0)

/-- The character ends the word. -/
def endsAt (w : Word) (c : Char) : Bool :=
  w.level.mode = .plain && w.level.braces = 0 && "\n<>();&| \t".toList.contains c

/-- The word behind the opening of a parameter; `opens` tells that its word follows. -/
def openParameter (w : Word) (name : Raw) (use : Use) (orEmpty opens : Bool) : Word :=
  let trims := match use with
    | .withoutEnd _ | .withoutStart _ => true
    | _ => false
  let mode := if trims then .plain else if w.level.mode = .arithmetic then .double else w.level.mode
  let w := w.add (.openParameter name use orEmpty)
  if !opens then w.add .close
  else
    let w := if mode ≠ w.level.mode || w.level.innerQuote then
        w.push { Level.fresh mode true with doubled := mode ≠ .plain }
      else w
    w.change fun l =>
      { l with braces := l.braces + 1, doubledBraces := if l.doubled then l.doubledBraces + 1 else l.doubledBraces }

end Word

/-- A place that is open, and the parts before it, the last one first. -/
structure OpenPlace where
  place : List Part → Part
  before : List Part

/-- The parts of a word that count. A parameter with a colon and nothing that says how it is used has its word behind it, and the rest
of the word around it is passed over. -/
def counted : List Part → List Part
  | [] => []
  | .parameter name .value true word :: _ => .parameter name .value false [] :: word
  | p :: ps => p :: counted ps

/-- The parts of pieces; `places` are the open places, the innermost first, and `parts` the parts behind the innermost one, the last
one first. -/
def assemble (places : List OpenPlace) (parts : List Part) : List Piece → List Part
  | [] =>
    counted (places.foldl (fun inner p => p.place (counted inner.reverse) :: p.before) parts).reverse
  | piece :: pieces =>
    match piece with
    | .part p => assemble places (p :: parts) pieces
    | .openParameter name use orEmpty => assemble (⟨fun word => .parameter name use orEmpty word, parts⟩ :: places) [] pieces
    | .openArithmetic => assemble (⟨fun word => .arithmetic word, parts⟩ :: places) [] pieces
    | .close =>
      match places with
      | p :: places => assemble places (p.place (counted parts.reverse) :: p.before) pieces
      | [] => assemble [] parts pieces

namespace Reading

/-- A character that names a special parameter. -/
def isSpecialParameter (c : Char) : Bool := c.isDigit || "#?$!-*@".toList.contains c

/-- What may stand behind the name of a parameter in braces. -/
def useOf? (c : Char) : Option Use :=
  [('\x7d', Use.value), ('-', .default), ('+', .alternative), ('?', .complaint), ('=', .assignment)].lookup c

/-- A parameter: its name, its use, whether it counts as missing when it is empty, and whether a word follows. -/
structure ParameterHead where
  name : Raw
  use : Use
  orEmpty : Bool
  opens : Bool

/-- Reads how a parameter in braces is used. -/
def parameterUse (name : Raw) : Reading ParameterHead := do
  match ← peek with
  | some '%' =>
    let _ ← nextRaw
    return ⟨name, .withoutEnd (← nextIs '%'), false, true⟩
  | some '#' =>
    let _ ← nextRaw
    return ⟨name, .withoutStart (← nextIs '#'), false, true⟩
  | c =>
    let _ ← nextRaw
    let orEmpty := c = some ':'
    let c ← if orEmpty then next else pure c
    match c.bind useOf? with
    | some use => return ⟨name, use, orEmpty, orEmpty || use ≠ .value⟩
    | none => return ⟨name, .invalid, orEmpty, true⟩

/-- Reads the name that begins with the next character, if one does. -/
def parameterName? (long : Bool) : Reading (Option Raw) := do
  let n ← bound
  match ← peek with
  | some c =>
    if Raw.isNameStart c then return some (← nextWhile Raw.isNameChar n)
    if c.isDigit then return some (← nextWhile Char.isDigit (if long then n else 1))
    return none
  | none => return none

/-- The length of a parameter, which nothing may follow. -/
def lengthOf (name : Raw) : Reading ParameterHead := do
  return ⟨name, if (← peek) = some '\x7d' then .length else .invalid, false, true⟩

/-- Reads a parameter behind an opening brace. -/
def bracedParameter : Reading ParameterHead := do
  match ← parameterName? true with
  | some name => parameterUse name
  | none =>
    match ← peek with
    | none => return ⟨[], .invalid, false, true⟩
    | some '\x7d' => return ⟨[], .invalid, false, true⟩
    | some '#' =>
      let _ ← nextRaw
      match ← parameterName? true with
      | some name => lengthOf name
      | none =>
        dropBreaks
        match (← get).rest with
        | c :: '\x7d' :: _ =>
          if c = '\x7d' then parameterUse ['#']
          else
            let _ ← nextRaw
            if isSpecialParameter c then lengthOf [c] else return ⟨[], .invalid, false, true⟩
        | _ => parameterUse ['#']
    | some c =>
      let _ ← nextRaw
      if isSpecialParameter c then parameterUse [c] else return ⟨[], .invalid, false, true⟩

/-- Reads a script between backquotes, in which a backslash may stand before some characters, up to the closing one; `n` bounds its
length. -/
def backquoted (doubled : Bool) : Nat → Reading Raw
  | 0 => fail .openBackquote
  | n + 1 => do
    match ← next with
    | none => fail .openBackquote
    | some '\x60' => return []
    | some '\\' =>
      match ← nextRaw with
      | none => fail .openBackquote
      | some c =>
        let rest ← backquoted doubled n
        return if c = '\\' || c = '\x60' || c = '$' || (doubled && c = '\x22') then c :: rest else '\\' :: c :: rest
    | some c =>
      if c = '\n' then countLine
      return c :: (← backquoted doubled n)

/-- Reads commands from another text in the middle of this one. -/
def within (text : Raw) (act : Reading Tree) : Reading Tree := do
  let s ← get
  set { s with rest := text, line := 1, pushed := none, awaited := [] }
  let t ← act
  modify fun inner => { inner with rest := s.rest, line := s.line, pushed := none, awaited := s.awaited }
  return t

/-- Reads the output of commands as a part of a word, behind `$(`. -/
def commandPart (g : Grammar) (w : Word) : Reading Word := do
  let before ← get
  set { before with awaited := [] }
  let t ← g.commands true
  match (← get).last with
  | .closeParenthesis => modify fun s => { s with pushed := none }
  | _ => expecting .closeParenthesis
  modify fun s => { s with awaited := before.awaited }
  return w.add (.part (.command t))

/-- Reads what begins with a dollar sign, which is taken. -/
def dollar (g : Grammar) (w : Word) : Reading Word := do
  match ← peek with
  | some '(' =>
    if w.isMark then return w.addChar '$'
    let _ ← nextRaw
    if ← nextIs '(' then return (w.add .openArithmetic).push (.fresh .arithmetic false)
    commandPart g w
  | some '\x7b' =>
    if w.isMark then return w.addChar '$'
    let _ ← nextRaw
    let p ← bracedParameter
    return w.openParameter p.name p.use p.orEmpty p.opens
  | c =>
    if w.isMark || !c.any fun c => Raw.isNameStart c || isSpecialParameter c then return w.addChar '$'
    match ← parameterName? false with
    | some name => return w.openParameter name .value false false
    | none =>
      let _ ← nextRaw
      return w.openParameter c.toList .value false false

/-- Reads what begins with a backquote, which is taken. -/
def backquote (g : Grammar) (w : Word) : Reading Word := do
  if w.isMark then return w.addChar '\x60'
  let text ← backquoted w.level.doubled (← bound)
  let t ← within text (g.commands true)
  return w.add (.part (.command t))

/-- Reads what begins with a backslash, which is taken. -/
def backslash (w : Word) : Reading Word := do
  match ← nextRaw with
  | none => return w.add (.part (.literal '\\'))
  | some c =>
    let w := if w.keepsBackslash c then w.add (.part (.literal '\\')) else w
    return { w with quoted := true }.add (.part (.literal c))

/-- Reads a closing parenthesis of an expression, which is taken. -/
def closeParenthesis (w : Word) : Reading Word := do
  if 0 < w.level.parentheses then return (w.change fun l => { l with parentheses := l.parentheses - 1 }).addChar ')'
  if ← nextIs ')' then return w.pop.add .close
  return w.addChar ')'

/-- The word behind the character `c`, which is taken. -/
def wordChar (g : Grammar) (w : Word) (c : Char) : Reading Word := do
  if c = '\n' then
    countLine
    return w.addChar c
  match w.level.mode, c with
  | .single, '\'' => return w.closeQuote c
  | .single, _ => return w.addChar c
  | .plain, '\'' => return w.openQuote .single
  | .plain, '\x22' => return w.openQuote .double
  | .double, '\x22' => return w.closeQuote c
  | .arithmetic, '(' => return (w.change fun l => { l with parentheses := l.parentheses + 1 }).addChar c
  | .arithmetic, ')' => closeParenthesis w
  | _, '\\' => backslash w
  | _, '$' => dollar g w
  | _, '\x60' => backquote g w
  | _, '\x7d' => return w.closeBrace
  | _, _ => return w.addChar c

/-- At the beginning of a line of a document: drops tabs, and takes the line that ends it. -/
def lineOfDocument (mark : Raw) (dropTabs : Bool) : Reading Bool := do
  if dropTabs then modify fun s => { s with rest := s.rest.dropWhile (· = '\t') }
  let s ← get
  let behind := s.rest.drop mark.length
  if mark.isPrefixOf s.rest && (behind.head?).all (· = '\n') then
    set { s with rest := behind.drop 1, line := s.line + 1 }
    return true
  return false

/-- Reads a word; `fresh` tells that a line begins, and `n` bounds the length of the word. -/
def wordFrom (g : Grammar) (fresh : Bool) (w : Word) : Nat → Reading Word
  | 0 => return w
  | n + 1 => do
    if w.level.mode ≠ .single then dropBreaks
    if let some (mark, dropTabs) := w.document then
      if fresh then
        if ← lineOfDocument mark dropTabs then return { w with ended := true }
    match ← peekRaw with
    | none => return w
    | some c =>
      if w.endsAt c then return w
      let _ ← nextRaw
      let w ← wordChar g w c
      wordFrom g (c = '\n') w n

/-- The word has nothing open at its end. -/
def checkClosed (w : Word) : Reading Unit := do
  if w.level.mode = .arithmetic then fail .openArithmetic
  if w.level.mode ≠ .plain && w.document.isNone then fail .openQuote
  if w.level.braces ≠ 0 then fail .openBrace

/-- Reads a word. The result is its parts, and whether anything in it was quoted. -/
def word (g : Grammar) (isMark : Bool) : Reading (List Part × Bool) := do
  let w ← wordFrom g false (.start .plain none isMark) (2 * (← bound))
  checkClosed w
  return (assemble [] [] w.pieces.reverse, w.quoted)

/-- Reads a document. -/
def document (g : Grammar) (a : Awaited) : Reading (List Part) := do
  let mode := if a.expanded then Mode.double else .single
  let w ← wordFrom g true (.start mode (some (a.mark, a.dropTabs)) false) (2 * (← bound))
  checkClosed w
  return assemble [] [] w.pieces.reverse

end Reading

end ScriptLoader.Shell
