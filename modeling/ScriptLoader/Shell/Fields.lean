import ScriptLoader.Shell.Pattern

/-!
# Fields

How expanded text is cut into fields. The text comes in stretches: some are cut at the separators, some only at breaks between parameters,
and some never. A separator that is a blank ends a field together with the blanks around it and with one other separator among them.
`cut_text` says that text without stretches to cut is one field.
-/

namespace ScriptLoader.Shell

/-- A sign of expanded text: a character, or the mark of a quote, which makes a field even without characters. -/
inductive Sign where
  | glyph (g : Glyph)
  | mark
  deriving DecidableEq, Repr

/-- Where a stretch is cut. -/
inductive Cut where
  | never
  | atSeparators
  | atBreaks
  deriving DecidableEq, Repr

/-- A stretch of expanded text. -/
structure Stretch where
  cut : Cut
  signs : List Sign
  deriving DecidableEq, Repr

/-- The characters of signs. -/
def Sign.glyphs (signs : List Sign) : List Glyph :=
  signs.filterMap fun s =>
    match s with
    | .glyph g => some g
    | .mark => none

namespace Stretch

/-- The characters of stretches. -/
def glyphs (stretches : List Stretch) : List Glyph := stretches.flatMap fun s => Sign.glyphs s.signs

/-- The text of stretches. -/
def text (stretches : List Stretch) : Raw := glyphText (glyphs stretches)

end Stretch

namespace Field

/-- The break between two parameters. -/
def separator : Char := '\x00'

/-- What has been cut: the field that is open, its last sign first, and the fields before it, the last one first. `blank` tells that the
last separator was a blank, `atBreaks` that the last stretch is cut at breaks, `left` how many more fields there may be if their number is
limited, and `kept` how much of the open field is kept if nothing but blanks follows. -/
structure Cutting where
  current : List Sign
  fields : List (List Sign)
  blank : Bool
  atBreaks : Bool
  left : Option Nat
  kept : Option Nat
  deriving DecidableEq, Repr

/-- A separator that is a blank, or a break. -/
def isBlank (c : Char) : Bool := c = ' ' || c = '\t' || c = '\n' || c = separator

namespace Cutting

/-- Nothing is cut yet. -/
def start (limit : Option Nat) : Cutting := ⟨[], [], false, false, limit, none⟩

/-- With one more sign in the open field. -/
def push (t : Cutting) (s : Sign) : Cutting := { t with current := s :: t.current }

/-- With a separator behind the open field. -/
def separate (t : Cutting) (s : Sign) (blank : Bool) : Cutting :=
  if blank && t.current.isEmpty then { t with blank := false }
  else
    match t.left with
    | some (n + 1) =>
      if n = 0 then { t with left := some 0, kept := some t.current.length, blank }.push s
      else { t with current := [], fields := t.current.reverse :: t.fields, blank, left := some n }
    | _ => { t with current := [], fields := t.current.reverse :: t.fields, blank }

/-- With one more sign of the last field that may be. -/
def pushLast (t : Cutting) (s : Sign) (separates isBlank : Bool) : Cutting :=
  if separates && isBlank then { t with kept := t.kept.or (some t.current.length) }.push s
  else { t with kept := if separates && t.blank then t.kept else none, blank := false }.push s

/-- With one more sign of a stretch that is cut; `among` tells which characters separate, and `afterBreaks` that the stretch before it was
cut at breaks. -/
def step (among : Char → Bool) (afterBreaks : Bool) (t : Cutting) (s : Sign) : Cutting :=
  match s with
  | .mark => t.push s
  | .glyph g =>
    let separates := g.char = separator || (!t.atBreaks && among g.char)
    let blank := isBlank g.char
    if t.left = some 0 then t.pushLast s separates blank
    else if t.blank then
      if separates then { t with current := [], blank } else { t with current := [s], blank := false }
    else if separates then t.separate s (if afterBreaks || t.atBreaks then false else blank)
    else t.push s

/-- With one more stretch. -/
def add (among : Char → Bool) (t : Cutting) (s : Stretch) : Cutting :=
  match s.cut with
  | .never => s.signs.foldl push t
  | cut => s.signs.foldl (step among t.atBreaks) { t with atBreaks := cut = .atBreaks, blank := false }

/-- The fields. -/
def finish (t : Cutting) : List (List Sign) :=
  let last := match t.kept with
    | some n => t.current.reverse.take n
    | none => t.current.reverse
  (if t.atBreaks || !last.isEmpty then last :: t.fields else t.fields).reverse

end Cutting

/-- The fields of stretches, at most `limit` if there is a limit. -/
def cut (separators : Raw) (limit : Option Nat) (stretches : List Stretch) : List (List Sign) :=
  (stretches.foldl (Cutting.add separators.contains) (.start limit)).finish

theorem foldl_push (signs : List Sign) (t : Cutting) :
    signs.foldl Cutting.push t = { t with current := signs.reverse ++ t.current } := by
  induction signs generalizing t with
  | nil => rfl
  | cons s signs ih => simp [ih, Cutting.push]

/-- Text that is never cut is one field, if it is not empty. -/
theorem cut_text (separators : Raw) (limit : Option Nat) (signs : List Sign) (h : signs ≠ []) :
    cut separators limit [⟨.never, signs⟩] = [signs] := by
  simp [cut, Cutting.add, foldl_push, Cutting.start, Cutting.finish, h]

end Field

end ScriptLoader.Shell
