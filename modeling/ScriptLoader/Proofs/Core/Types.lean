import ScriptLoader.Proofs.Core.Symbols
import ScriptLoader.Syntax.TypeSyntax

/-!
# The text of a type

The types of the core language: names with arguments, literals, arrays, tuples and object types, unions and intersections, function
types, type predicates and conditional types. What stands between brackets is not looked at more closely than that its own brackets
are nested (`Nested`), and what stands between angle brackets may be written with `>>` and `>>>` for closing brackets that meet
(`TypeArguments`).
-/

namespace ScriptLoader.Syntax

/-! ## Brackets -/

/-- Lexemes whose brackets are nested. -/
inductive Nested : List Lexeme → Prop where
  | nil : Nested []
  | leaf {m : Lexeme} {ms : List Lexeme} (hopen : Bracket.opened? m.2 = none) (hclose : Bracket.closed? m.2 = none)
      (h : Nested ms) : Nested (m :: ms)
  | group (b : Bracket) {inner ms : List Lexeme} (hinner : Nested inner) (h : Nested ms) :
      Nested (mark b.opener :: inner ++ mark b.closer :: ms)

/-- A pair of brackets with what stands between them. -/
inductive Group (b : Bracket) : List Lexeme → Prop where
  | intro {inner : List Lexeme} (h : Nested inner) : Group b (mark b.opener :: inner ++ [mark b.closer])

/-! ## Angle brackets -/

/-- A lexeme, or one closing angle bracket of those that a token stands for. -/
inductive Piece where
  | lexeme (m : Lexeme)
  | closing

/-- The class and the text may stand in a list of type arguments. -/
def fitsArguments (m : Lexeme) : Bool :=
  m.1 == .string || m.1 == .template || m.1 == .number || m.1 == .identifier || typeArgumentPunctuation.contains m.2

/-- What may stand between angle brackets, inside other brackets or not. Only inside may a semicolon stand. -/
inductive Between : (inside : Bool) → List Piece → Prop where
  | nil (inside : Bool) : Between inside []
  | leaf {inside : Bool} {m : Lexeme} {ps : List Piece} (hfits : fitsArguments m = true) (hangle : angleStep m.2 = none)
      (hopen : Bracket.opened? m.2 = none) (hclose : Bracket.closed? m.2 = none) (hsemicolon : m.2 = ";" → inside = true)
      (h : Between inside ps) : Between inside (.lexeme m :: ps)
  | group {inside : Bool} (b : Bracket) {inner ps : List Piece} (hinner : Between true inner) (h : Between inside ps) :
      Between inside (.lexeme (mark b.opener) :: inner ++ .lexeme (mark b.closer) :: ps)
  | angles {inside : Bool} {inner ps : List Piece} (hinner : Between inside inner) (h : Between inside ps) :
      Between inside (.lexeme (mark "<") :: inner ++ .closing :: ps)

/-- Closing angle brackets that meet may be one token. -/
inductive Merges : List Piece → List Lexeme → Prop where
  | nil : Merges [] []
  | lexeme {m : Lexeme} {ps : List Piece} {ms : List Lexeme} (h : Merges ps ms) : Merges (.lexeme m :: ps) (m :: ms)
  | one {ps : List Piece} {ms : List Lexeme} (h : Merges ps ms) : Merges (.closing :: ps) (mark ">" :: ms)
  | two {ps : List Piece} {ms : List Lexeme} (h : Merges ps ms) : Merges (.closing :: .closing :: ps) (mark ">>" :: ms)
  | three {ps : List Piece} {ms : List Lexeme} (h : Merges ps ms) :
      Merges (.closing :: .closing :: .closing :: ps) (mark ">>>" :: ms)

/-- A list of type arguments or type parameters. -/
inductive TypeArguments : List Lexeme → Prop where
  | intro {ps : List Piece} {ms : List Lexeme} (h : Between false ps) (hmerges : Merges (.lexeme (mark "<") :: ps ++ [.closing]) ms) :
      TypeArguments ms

/-! ## Types -/

/-- The further parts of a dotted name. -/
inductive Dotted : List Lexeme → Prop where
  | nil : Dotted []
  | cons {name : String} {ms : List Lexeme} (h : Dotted ms) : Dotted (mark "." :: word name :: ms)

/-- A name of a type with its arguments, if it has any. -/
inductive Named : List Lexeme → Prop where
  | plain {name : String} {dots : List Lexeme} (hname : name ∉ typePrefixes) (hdots : Dotted dots) : Named (word name :: dots)
  | applied {name : String} {dots arguments : List Lexeme} (hname : name ∉ typePrefixes) (hdots : Dotted dots)
      (harguments : TypeArguments arguments) : Named (word name :: dots ++ arguments)

/-- Array suffixes and indexed access. -/
inductive Suffixes : List Lexeme → Prop where
  | nil : Suffixes []
  | cons {ms suffixes : List Lexeme} (h : Group .square ms) (hrest : Suffixes suffixes) : Suffixes (ms ++ suffixes)

/-- A string, a template or a number. -/
def isLiteralKind (k : TokenKind) : Bool := k == .string || k == .template || k == .number

/-- What an array suffix may stand behind; `bare` is something in round brackets, which before an arrow are parameters. -/
inductive Base : (bare : Bool) → List Lexeme → Prop where
  | named {ms : List Lexeme} (h : Named ms) : Base false ms
  | literal {m : Lexeme} (h : isLiteralKind m.1 = true) : Base false [m]
  | round {ms : List Lexeme} (h : Group .round ms) : Base true ms
  | square {ms : List Lexeme} (h : Group .square ms) : Base false ms
  | curly {ms : List Lexeme} (h : Group .curly ms) : Base false ms

/-- The parts of a type: an operand without a word before it, an operand, operands that are joined, and a type as a whole. -/
inductive TypePart where
  | simple
  | operand
  | joined
  | whole
  deriving DecidableEq

/-- A word before an operand has one of these behind it. -/
def beginsPrefixed (ms : List Lexeme) : Bool :=
  ms.head?.any fun m => m.1 == .identifier || m.1 == .string || ["(", "[", "\x7b", "<"].contains m.2

/-- The text of a part of a type. A `bare` one ends in round brackets that an arrow would make parameters, and a `greedy` operand ends
in a type that would take up what joins further operands. -/
inductive TypeText : TypePart → (bare greedy : Bool) → List Lexeme → Prop where
  | based {bare : Bool} {base suffixes : List Lexeme} (h : Base bare base) (hsuffixes : Suffixes suffixes) :
      TypeText .simple (bare && suffixes.isEmpty) false (base ++ suffixes)
  | negative {m : Lexeme} (h : m.1 = .number) : TypeText .simple false false [mark "-", m]
  | function {bare greedy : Bool} {parameters result : List Lexeme} (h : Group .round parameters)
      (hresult : TypeText .whole bare greedy result) : TypeText .simple bare true (parameters ++ mark "=>" :: result)
  | predicate {bare greedy : Bool} {name type : List Lexeme} (h : Named name) (htype : TypeText .whole bare greedy type) :
      TypeText .simple bare true (name ++ word "is" :: type)
  | simple {bare greedy : Bool} {ms : List Lexeme} (h : TypeText .simple bare greedy ms) : TypeText .operand bare greedy ms
  | prefixed {bare greedy : Bool} {name : String} {ms : List Lexeme} (hname : name ∈ typePrefixes) (hms : beginsPrefixed ms = true)
      (h : TypeText .operand bare greedy ms) : TypeText .operand bare greedy (word name :: ms)
  | generic {bare greedy : Bool} {parameters ms : List Lexeme} (hparameters : TypeArguments parameters)
      (h : TypeText .simple bare greedy ms) : TypeText .operand bare greedy (parameters ++ ms)
  | operand {bare greedy : Bool} {ms : List Lexeme} (h : TypeText .operand bare greedy ms) : TypeText .joined bare greedy ms
  | join {bare bare' greedy : Bool} {op : String} {first others : List Lexeme} (hop : op ∈ ["|", "&"])
      (h : TypeText .operand bare false first) (hothers : TypeText .joined bare' greedy others) :
      TypeText .joined bare' greedy (first ++ mark op :: others)
  | conditional {b₁ b₂ b₃ b₄ g₃ g₄ : Bool} {checked bound yes no : List Lexeme} (hchecked : TypeText .operand b₁ false checked)
      (hbound : TypeText .operand b₂ false bound) (hyes : TypeText .whole b₃ g₃ yes) (hno : TypeText .whole b₄ g₄ no) :
      TypeText .joined b₄ true (checked ++ word "extends" :: (bound ++ mark "?" :: (yes ++ mark ":" :: no)))
  | whole {bare greedy : Bool} {ms : List Lexeme} (h : TypeText .joined bare greedy ms) : TypeText .whole bare greedy ms
  | leading {bare greedy : Bool} {op : String} {ms : List Lexeme} (hop : op ∈ ["|", "&"]) (h : TypeText .joined bare greedy ms) :
      TypeText .whole bare greedy (mark op :: ms)

/-- Behind a part of a type, the lexeme goes on with it. -/
def goesOn (part : TypePart) (bare greedy : Bool) (m : Lexeme) : Bool :=
  ["[", "<", "."].contains m.2 || m == word "is" || (bare && m.2 == "=>") ||
    ((greedy || part == .joined || part == .whole) && (["|", "&"].contains m.2 || m == word "extends"))

/-- A part of a type ends before these tokens. -/
def EndsBefore (part : TypePart) (bare greedy : Bool) (rest : List Token) : Prop :=
  ∀ m, (lexemes rest).head? = some m → goesOn part bare greedy m = false

end ScriptLoader.Syntax
