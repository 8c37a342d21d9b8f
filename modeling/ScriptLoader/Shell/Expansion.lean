import ScriptLoader.Shell.Arithmetic
import ScriptLoader.Shell.Fields
import ScriptLoader.Shell.Pathnames
import ScriptLoader.Shell.State

/-!
# Expansion

A word of a script becomes text: parameters, commands and expressions are put in, a tilde becomes a home directory, and what was put in
outside quotes is cut into fields.
-/

namespace ScriptLoader.Shell

/-- How a word is expanded: cut into fields, as if it stood between double quotes, as the word of a parameter, whose characters are cut
themselves, and with tildes at its beginning or behind the marks of an assignment. -/
structure Style where
  splits : Bool
  quoted : Bool
  inParameter : Bool
  startTilde : Bool
  assignment : Bool
  deriving DecidableEq, Repr

namespace Style

/-- Into fields. -/
def fields : Style := ⟨true, false, false, true, false⟩

/-- Into one text. -/
def single : Style := ⟨false, false, false, true, false⟩

/-- As an assignment. -/
def assigned : Style := ⟨false, false, false, false, true⟩

/-- As it stands. -/
def plain : Style := ⟨false, false, false, false, false⟩

/-- As text between double quotes. -/
def document : Style := ⟨false, true, false, false, false⟩

end Style

namespace Expansion

open Act

/-- The name behind a tilde, if nothing but a name stands there, and what follows. -/
def homeName? (assignment : Bool) (parts : List Part) : Option (Raw × List Part) :=
  let isEnd (c : Char) : Bool := c = '/' || (assignment && c = ':')
  match parts with
  | [] => some ([], [])
  | .char c :: rest => if isEnd c then some ([], parts) else (homeName? assignment rest).map fun r => (c :: r.1, r.2)
  | _ :: _ => none

/-- The home directory of a user, or of the one who runs the shell. -/
def home? (s : State) (user : Raw) : Option Raw :=
  if user.isEmpty then s.value? "HOME".toList else if user = "root".toList then some "/root".toList else none

/-- What a tilde in front of `parts` becomes, if it becomes something, and what follows. -/
def tilde? (s : State) (assignment : Bool) (parts : List Part) : Option (Raw × List Part) := do
  let (user, rest) ← homeName? assignment parts
  return (← home? s user, rest)

/-- The separator of all parameters in one text. -/
def joint (s : State) : Raw :=
  match s.value? "IFS".toList with
  | some ifs => ifs.take 1
  | none => [' ']

/-- What stands between all parameters when they are put into a word as `*` or `@`. -/
def jointFor (s : State) (style : Style) (name : Raw) : Raw :=
  if style.splits && (if style.quoted then name = ['@'] else (s.value? "IFS".toList).isSome) then [Field.separator]
  else if style.splits && !style.quoted then [' ']
  else joint s

/-- The letters of the options that are on. -/
def optionLetters (s : State) : Raw := ShellOption.letters.reverse.filter s.has

/-- The value of a parameter. -/
def parameter? (s : State) (style : Style) (name : Raw) : Option Raw :=
  match name with
  | ['@'] | ['*'] => some (Raw.join (jointFor s style name) s.parameters.words)
  | ['#'] => some (Raw.ofNat s.parameters.words.length)
  | ['?'] => some (Raw.ofNat s.status)
  | ['$'] => some (Raw.ofNat s.number)
  | ['!'] => s.lastJob.map Raw.ofNat
  | ['-'] => some (optionLetters s)
  | _ =>
    match Raw.decimal? name with
    | some 0 => some s.name
    | some n => s.parameters.words[n - 1]?
    | none => s.value? name

/-- A value as it stands in a word. -/
def valueStretch (s : State) (style : Style) (name value : Raw) : Stretch :=
  let cut : Cut := if !style.quoted then .atSeparators
    else if name = ['@'] && !s.parameters.words.isEmpty then .atBreaks
    else .never
  ⟨cut, value.map fun c => .glyph ⟨c, style.quoted⟩⟩

/-- Complains that a parameter has no value. -/
def complainOfMissing {α : Type} (name : Raw) (message : Raw) : Act α := fail (name ++ [':', ' '] ++ message)

/-- The text of an output without line feeds at its end, and without zeros. -/
def outputText (text : Raw) : Raw := ((text.filter (· ≠ '\x00')).reverse.dropWhile (· = '\n')).reverse

/-- Evaluates an expression; what it assigns before a fault stays assigned. -/
def evaluateText (text : Raw) : Act Raw := do
  let (result, assigned) := arithmetic (← get).value? text
  assigned.forM fun (x, m) => assign x (Raw.ofInt m)
  match result with
  | .error f => fail (f.message text)
  | .ok n => return Raw.ofInt n

/-- Where the expansion of parts has come to: inside double quotes, where a tilde may stand, behind the name of an assignment, and how many
parts are done already. -/
structure Walk where
  inQuotes : Bool
  fresh : Bool
  named : Bool
  done : Nat
  deriving DecidableEq, Repr

/-- At the beginning of parts. -/
def Walk.start (style : Style) (named : Bool) : Walk := ⟨false, style.startTilde, named, 0⟩

/-- Behind a part. -/
def Walk.past (w : Walk) (assignment : Bool) (p : Part) : Walk :=
  match p with
  | .char c =>
    { w with fresh := assignment && (c = if w.named then ':' else '='), named := w.named || c = '=' }
  | .quote => { w with inQuotes := !w.inQuotes, fresh := false }
  | _ => { w with fresh := false }

/-- A character outside quotes. -/
def charStretch (style : Style) (w : Walk) (c : Char) : Stretch :=
  ⟨if style.inParameter && !style.quoted && !w.inQuotes then .atSeparators else .never, [.glyph ⟨c, style.quoted⟩]⟩

/-- A character in front of stretches; it belongs to the first one if that one begins with a character like it. -/
def consChar (s : Stretch) (rest : List Part) (stretches : List Stretch) : List Stretch :=
  match rest, stretches with
  | .char _ :: _, t :: ts => if s.cut = t.cut then ⟨s.cut, s.signs ++ t.signs⟩ :: ts else s :: stretches
  | _, _ => s :: stretches

/-- The parts begin with all parameters between double quotes, and nothing else there. -/
def isAllParameters (parts : List Part) : Bool :=
  match parts with
  | .quote :: .parameter ['@'] .value _ _ :: .quote :: _ => true
  | _ => false

mutual

/-- Expands parts; `substitute` gives the output of a command. -/
def expandParts (substitute : Tree → Act Raw) (style : Style) (w : Walk) : List Part → Act (List Stretch)
  | [] => return []
  | p :: rest => do
    if 0 < w.done then expandParts substitute style { w with done := w.done - 1 } rest
    else if !w.inQuotes && isAllParameters (p :: rest) then
      let s ← get
      let quoted := { style with quoted := true }
      let here := valueStretch s quoted ['@'] ((parameter? s quoted ['@']).getD [])
      return here :: (← expandParts substitute style { w with fresh := false, done := 2 } rest)
    else
      let s ← get
      let home? := match p with
        | .char c => if c = '~' && w.fresh then tilde? s style.assignment rest else none
        | _ => none
      match home?, p with
      | some (home, after), _ =>
        let here : Stretch := ⟨.never, home.map fun c => .glyph ⟨c, true⟩⟩
        return here :: (← expandParts substitute style { w with fresh := false, done := rest.length - after.length } rest)
      | none, .char c =>
        return consChar (charStretch style w c) rest (← expandParts substitute style (w.past style.assignment p) rest)
      | none, p => do
        let here ← expandPart substitute style w p
        return here ++ (← expandParts substitute style (w.past style.assignment p) rest)

/-- Expands a part. -/
def expandPart (substitute : Tree → Act Raw) (style : Style) (w : Walk) : Part → Act (List Stretch)
  | .char c => return [charStretch style w c]
  | .literal c => return [⟨.never, [.glyph ⟨c, true⟩]⟩]
  | .quote => return [⟨.never, [.mark]⟩]
  | .command script => do
    let text ← substitute script
    return [valueStretch (← get) { style with quoted := style.quoted || w.inQuotes } [] (outputText text)]
  | .arithmetic word => do
    let text := Stretch.text (← expandParts substitute Style.plain (.start Style.plain false) word)
    let value ← evaluateText text
    return [valueStretch (← get) { style with quoted := style.quoted || w.inQuotes } [] value]
  | .parameter name use orEmpty word => do
    let style := { style with quoted := style.quoted || w.inQuotes }
    let s ← get
    let value := (parameter? s style name).filter fun v => !(orEmpty && v.isEmpty)
    let inner (style : Style) : Act (List Stretch) := expandParts substitute style (.start style w.named) word
    let wordStyle := { style with inParameter := true, startTilde := true }
    let present (v : Raw) : List Stretch := [valueStretch s style name v]
    let checked : Act Unit := do if value.isNone && s.has 'u' then complainOfMissing name "parameter not set"
    match use with
    | .invalid => fail "Bad substitution"
    | .value => do
      checked
      return (value.map present).getD []
    | .default =>
      match value with
      | some v => return present v
      | none => inner wordStyle
    | .alternative =>
      match value with
      | some _ => inner wordStyle
      | none => return present []
    | .assignment =>
      match value with
      | some v => return present v
      | none => do
        assign name (Stretch.text (← inner Style.single))
        let s ← get
        return ((parameter? s style name).map fun v => [valueStretch s style name v]).getD []
    | .complaint =>
      match value with
      | some v => return present v
      | none => do
        let text := Stretch.text (← inner Style.single)
        complainOfMissing name
          (if word.isEmpty then if orEmpty then "parameter not set or null" else "parameter not set" else text)
    | .length => do
      checked
      return present (Raw.ofNat (value.getD []).length)
    | .withoutStart longest => do
      checked
      match value with
      | some v => return present (trimStart longest (Stretch.glyphs (← inner Style.single)) v)
      | none => return []
    | .withoutEnd longest => do
      checked
      match value with
      | some v => return present (trimEnd longest (Stretch.glyphs (← inner Style.single)) v)
      | none => return []

end

/-- A word as one text. -/
def text (substitute : Tree → Act Raw) (style : Style) (word : List Part) : Act Raw :=
  return Stretch.text (← expandParts substitute style (.start style false) word)

/-- A word as a pattern. -/
def patternOf (substitute : Tree → Act Raw) (word : List Part) : Act (List Glyph) :=
  return Stretch.glyphs (← expandParts substitute Style.single (.start Style.single false) word)

/-- A word as fields, with patterns replaced by the names that they match. -/
def fields (substitute : Tree → Act Raw) (word : List Part) : Act (List Raw) := do
  let stretches ← expandParts substitute Style.fields (.start Style.fields false) word
  let s ← get
  let cut := Field.cut s.separators none stretches
  return cut.flatMap fun signs =>
    let gs := Sign.glyphs signs
    let names := if s.has 'f' then [] else pathnames s.process.machine s.process.cwd gs
    if names.isEmpty then [glyphText gs] else names

end Expansion

end ScriptLoader.Shell
