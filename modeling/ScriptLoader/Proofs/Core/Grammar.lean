import ScriptLoader.Proofs.Core.Types
import ScriptLoader.Syntax.Eraser

/-!
# The core language

Programs of a core of the typed language as symbols (`Core`): declarations of variables, functions, classes, interfaces and type
aliases, conditions and loops, and expressions with calls, members, operators, arrow functions, objects, casts and assertions. Each
symbol is marked as code or as type syntax, so a program also says what is left of it when its types are erased (`said`).

Forms that the eraser takes for another one are not in the core: a comparison with `<`, which may begin a list of type arguments; an
arrow function with the type of its result in the middle of a condition, where the colon may be the condition's; a result type of an
arrow function that ends in round brackets, which with the arrow are a function type; in the initialiser of a field, a condition that
goes on with a round bracket, which reads like an optional method; a member with the name of an operator (`m.delete`) that is not
called, behind which no expression has ended; a cast to a type that begins with neither a word, a string nor a bracket; and an
exclamation mark that does not stand right behind what it is about.
-/

namespace ScriptLoader.Syntax

/-! ## Words -/

/-- Keywords, and words that the eraser looks for in code. -/
def reservedWords : List String :=
  ["as", "await", "break", "case", "catch", "class", "const", "continue", "debugger", "declare", "default", "delete", "do", "else",
   "enum", "export", "extends", "false", "finally", "for", "function", "if", "implements", "import", "in", "instanceof", "interface",
   "let", "module", "namespace", "new", "null", "of", "override", "private", "protected", "public", "readonly", "return", "satisfies",
   "static", "super", "switch", "this", "throw", "true", "try", "type", "typeof", "var", "void", "while", "with", "yield"]

/-- A name that is no keyword and no word that the eraser looks for. -/
def Ordinary (name : String) : Prop := name ∉ reservedWords

/-- Words that stand for a value. -/
def constants : List String := ["true", "false", "null"]

/-- What may stand before an expression. -/
def prefixOperators : List Lexeme :=
  ["!", "-", "+", "~", "++", "--"].map mark ++ ["typeof", "void", "delete", "await", "new"].map word

/-- What may stand between two expressions. -/
def binaryOperators : List Lexeme :=
  ["=", "+=", "-=", "*=", "/=", "%=", "**=", "<<=", ">>=", ">>>=", "&=", "|=", "^=", "&&=", "||=", "??=", "+", "-", "*", "/", "%",
   "**", "==", "!=", "===", "!==", "<=", ">", ">=", "<<", ">>", ">>>", "&&", "||", "??", "&", "|", "^"].map mark ++
  ["in", "instanceof"].map word

abbrev codeWord (s : String) : Sym := code (word s)

abbrev codeMark (s : String) : Sym := code (mark s)

abbrev typedWord (s : String) : Sym := typed (word s)

abbrev typedMark (s : String) : Sym := typed (mark s)

/-! ## Types at their places -/

/-- A list of type arguments or type parameters, or nothing. -/
inductive Arguments : List Sym → Prop where
  | none : Arguments []
  | some {ms : List Lexeme} (h : TypeArguments ms) : Arguments (ms.map typed)

/-- A colon and a type, or nothing. What follows is no arrow, or the type does not end in round brackets. -/
inductive Annotated (arrow : Bool) : List Sym → Prop where
  | none : Annotated arrow []
  | some {bare greedy : Bool} {ms : List Lexeme} (h : TypeText .whole bare greedy ms) (hbare : arrow = true → bare = false) :
      Annotated arrow (typedMark ":" :: ms.map typed)

/-- Types with commas between them. -/
inductive TypeList : List Lexeme → Prop where
  | one {bare greedy : Bool} {ms : List Lexeme} (h : TypeText .whole bare greedy ms) : TypeList ms
  | more {bare greedy : Bool} {ms others : List Lexeme} (h : TypeText .whole bare greedy ms) (hothers : TypeList others) :
      TypeList (ms ++ mark "," :: others)

/-- The class that a class extends, if it extends one. -/
inductive Extension : List Sym → Prop where
  | none : Extension []
  | some {base : String} {arguments : List Sym} (hbase : Ordinary base) (harguments : Arguments arguments) :
      Extension (codeWord "extends" :: codeWord base :: arguments)

/-- The types that a class implements, if it implements any. -/
inductive Implementation : List Sym → Prop where
  | none : Implementation []
  | some {ms : List Lexeme} (h : TypeList ms) : Implementation (typedWord "implements" :: ms.map typed)

/-- What stands before the name of a member of a class. -/
inductive Modifiers : List Sym → Prop where
  | nil : Modifiers []
  | erased {name : String} {ss : List Sym} (hname : name ∈ Eraser.memberModifiers) (h : Modifiers ss) :
      Modifiers (typedWord name :: ss)
  | static {ss : List Sym} (h : Modifiers ss) : Modifiers (codeWord "static" :: ss)

/-- What stands behind the name of a field. -/
inductive FieldMark : List Sym → Prop where
  | none : FieldMark []
  | optional : FieldMark [typedMark "?"]
  | definite : FieldMark [assertion]

/-- What stands between the name of an interface, or its type parameters, and its body. -/
inductive Header : List Lexeme → Prop where
  | nil : Header []
  | leaf {m : Lexeme} {ms : List Lexeme} (hangle : m ≠ mark "<") (hcurly : m ≠ mark "\x7b") (h : Header ms) : Header (m :: ms)
  | angles {arguments ms : List Lexeme} (harguments : TypeArguments arguments) (h : Header ms) : Header (arguments ++ ms)

/-- An interface or a type alias. -/
inductive TypeDeclaration : List Sym → Prop where
  | interface {name : String} {header body : List Lexeme} (hname : Ordinary name) (hheader : Header header)
      (hbody : Group .curly body) : TypeDeclaration (typedWord "interface" :: typedWord name :: (header ++ body).map typed)
  | typeAlias {bare greedy : Bool} {name : String} {arguments : List Sym} {ms : List Lexeme} (hname : Ordinary name)
      (harguments : Arguments arguments) (hms : TypeText .whole bare greedy ms) :
      TypeDeclaration (typedWord "type" :: typedWord name :: (arguments ++ typedMark "=" :: (ms.map typed ++ [typedMark ";"])))

/-! ## Names that are introduced -/

/-- What is listed with commas. -/
inductive Kind where
  | item
  | property
  | parameter
  | declarator
  deriving DecidableEq

/-- A parameter or a variable, without its value. -/
inductive Binding : (k : Kind) → List Sym → Prop where
  | parameter {dots optional type : List Sym} {x : String} (hdots : dots = [] ∨ dots = [codeMark "..."]) (hx : Ordinary x)
      (hoptional : optional = [] ∨ optional = [typedMark "?"]) (htype : Annotated false type) :
      Binding .parameter (dots ++ codeWord x :: (optional ++ type))
  | declarator {type : List Sym} {x : String} (hx : Ordinary x) (htype : Annotated false type) :
      Binding .declarator (codeWord x :: type)

/-- A field of a class, without its value. -/
inductive Field : List Sym → Prop where
  | intro {modifiers marks type : List Sym} {x : String} (hmodifiers : Modifiers modifiers) (hx : Ordinary x)
      (hmarks : FieldMark marks) (htype : Annotated false type) : Field (modifiers ++ codeWord x :: (marks ++ type))

/-! ## Programs -/

/-- The categories of the grammar. An expression stands in a middle arm (`mid`) if it is the middle of a condition, outside brackets of
its own; it is of a `field` if it is the initialiser of one, outside brackets; and it ends `typed` if it ends in the type of a cast. -/
inductive Category where
  | primary
  | expression (mid field typed : Bool)
  | arrow (mid : Bool)
  | element (k : Kind)
  | list (k : Kind)
  | signature
  | block
  | branch (w : String)
  | choice
  | declaration
  | statement
  | statements
  | member
  | members

/-- The symbols begin with a round bracket. -/
def beginsRound (ss : List Sym) : Bool := ss.head?.any fun s => s.lexeme == mark "("

/-- An expression that begins with a word, a literal or a round bracket may begin a statement. -/
def beginsStatement (ss : List Sym) : Bool :=
  ss.head?.any fun s => s.lexeme.1 == .identifier || isLiteralKind s.lexeme.1 || s.lexeme == mark "("

/-- A type that begins with a word, a string or a bracket may stand behind `as` or `satisfies`. -/
def beginsCast (ms : List Lexeme) : Bool :=
  ms.head?.any fun m => m.1 == .identifier || m.1 == .string || ["\x7b", "(", "["].contains m.2

/-- A key of an object. -/
def IsKey (m : Lexeme) : Prop := (m.1 = .identifier ∧ Ordinary m.2) ∨ m.1 = .string ∨ m.1 = .number

/-- What stands between a pair of brackets, with them. -/
def bracketed (b : Bracket) (ss : List Sym) : List Sym := codeMark b.opener :: ss ++ [codeMark b.closer]

/-- The symbols are of the category. -/
inductive Core : Category → List Sym → Prop where
  -- what stands for a value, and what may follow it without an operator
  | name {x : String} (hx : Ordinary x) : Core .primary [codeWord x]
  | constant {x : String} (hx : x ∈ constants) : Core .primary [codeWord x]
  | literal {m : Lexeme} (hm : isLiteralKind m.1 = true) : Core .primary [code m]
  | this {x : String} (hx : x ∉ Eraser.expressionWords) : Core .primary [codeWord "this", codeMark ".", codeWord x]
  | parentheses {t : Bool} {ss : List Sym} (h : Core (.expression false false t) ss) : Core .primary (bracketed .round ss)
  | array {ss : List Sym} (h : Core (.list .item) ss) : Core .primary (bracketed .square ss)
  | object {ss : List Sym} (h : Core (.list .property) ss) : Core .primary (bracketed .curly ss)
  | dot {ss : List Sym} {dot x : String} (h : Core .primary ss) (hdot : dot ∈ [".", "?."]) (hx : x ∉ Eraser.expressionWords) :
      Core .primary (ss ++ [codeMark dot, codeWord x])
  | index {t : Bool} {ss us : List Sym} (h : Core .primary ss) (hindex : Core (.expression false false t) us) :
      Core .primary (ss ++ bracketed .square us)
  | call {ss arguments us : List Sym} (h : Core .primary ss) (harguments : Arguments arguments) (hus : Core (.list .item) us) :
      Core .primary (ss ++ (arguments ++ bracketed .round us))
  | callMember {ss arguments us : List Sym} {dot x : String} (h : Core .primary ss) (hdot : dot ∈ [".", "?."])
      (harguments : Arguments arguments) (hus : Core (.list .item) us) :
      Core .primary (ss ++ codeMark dot :: codeWord x :: (arguments ++ bracketed .round us))
  | asserted {ss : List Sym} (h : Core .primary ss) : Core .primary (ss ++ [assertion])
  -- expressions
  | value {mid field : Bool} {ss : List Sym} (h : Core .primary ss) : Core (.expression mid field false) ss
  | before {mid field t : Bool} {op : Lexeme} {ss : List Sym} (hop : op ∈ prefixOperators) (h : Core (.expression mid field t) ss) :
      Core (.expression mid field t) (code op :: ss)
  | binary {mid field t t' : Bool} {op : Lexeme} {ss us : List Sym} (hop : op ∈ binaryOperators)
      (htyped : t = true → op ∉ [mark "|", mark "&"]) (h : Core (.expression mid field t) ss)
      (h' : Core (.expression mid field t') us) : Core (.expression mid field t') (ss ++ code op :: us)
  | conditional {mid field t t₁ t₂ : Bool} {ss us vs : List Sym} (h : Core (.expression mid field t) ss)
      (hyes : Core (.expression true field t₁) us) (hround : field = true → beginsRound us = false)
      (hno : Core (.expression mid field t₂) vs) :
      Core (.expression mid field t₂) (ss ++ codeMark "?" :: (us ++ codeMark ":" :: vs))
  | cast {mid field t bare greedy : Bool} {ss : List Sym} {ms : List Lexeme} {as : String} (h : Core (.expression mid field t) ss)
      (has : as ∈ ["as", "satisfies"]) (hms : TypeText .whole bare greedy ms) (hbegins : beginsCast ms = true) :
      Core (.expression mid field true) (ss ++ typedWord as :: ms.map typed)
  | arrowValue {mid field t : Bool} {ss us : List Sym} (h : Core (.arrow mid) ss) (hbody : Core (.expression mid field t) us) :
      Core (.expression mid field t) (ss ++ codeMark "=>" :: us)
  | arrowBlock {mid field : Bool} {ss us : List Sym} (h : Core (.arrow mid) ss) (hbody : Core .block us) :
      Core (.expression mid field false) (ss ++ codeMark "=>" :: us)
  -- what stands before the arrow of an arrow function, and the parameters of any function
  | arrowName {mid : Bool} {x : String} (hx : Ordinary x) : Core (.arrow mid) [codeWord x]
  | arrowParameters {mid : Bool} {ss : List Sym} (h : Core .signature ss) : Core (.arrow mid) ss
  | arrowTyped {ss result : List Sym} (h : Core .signature ss) (hresult : Annotated true result) : Core (.arrow false) (ss ++ result)
  | signature {arguments ss : List Sym} (harguments : Arguments arguments) (h : Core (.list .parameter) ss) :
      Core .signature (arguments ++ bracketed .round ss)
  -- what is listed with commas
  | item {t : Bool} {ss : List Sym} (h : Core (.expression false false t) ss) : Core (.element .item) ss
  | shorthand {x : String} (hx : Ordinary x) : Core (.element .property) [codeWord x]
  | keyed {t : Bool} {key : Lexeme} {ss : List Sym} (hkey : IsKey key) (h : Core (.expression false false t) ss) :
      Core (.element .property) (code key :: codeMark ":" :: ss)
  | methodProperty {x : String} {ss result us : List Sym} (hx : Ordinary x) (h : Core .signature ss)
      (hresult : Annotated false result) (hbody : Core .block us) : Core (.element .property) (codeWord x :: (ss ++ (result ++ us)))
  | spread {k : Kind} {t : Bool} {ss : List Sym} (hk : k ∈ [Kind.item, .property]) (h : Core (.expression false false t) ss) :
      Core (.element k) (codeMark "..." :: ss)
  | bound {k : Kind} {ss : List Sym} (h : Binding k ss) : Core (.element k) ss
  | defaulted {k : Kind} {t : Bool} {ss us : List Sym} (h : Binding k ss) (hvalue : Core (.expression false false t) us) :
      Core (.element k) (ss ++ codeMark "=" :: us)
  | empty {k : Kind} (hk : k ≠ .declarator) : Core (.list k) []
  | one {k : Kind} {ss : List Sym} (h : Core (.element k) ss) : Core (.list k) ss
  | more {k : Kind} {ss us : List Sym} (h : Core (.element k) ss) (hothers : Core (.list k) us) :
      Core (.list k) (ss ++ codeMark "," :: us)
  -- declarations
  | declaration {w : String} {ss : List Sym} (hw : w ∈ Eraser.declarationWords) (h : Core (.list .declarator) ss) :
      Core .declaration (codeWord w :: (ss ++ [codeMark ";"]))
  | function {x : String} {ss result us : List Sym} (hx : Ordinary x) (h : Core .signature ss) (hresult : Annotated false result)
      (hbody : Core .block us) : Core .declaration (codeWord "function" :: codeWord x :: (ss ++ (result ++ us)))
  | class {x : String} {arguments extension implementation ss : List Sym} (hx : Ordinary x) (harguments : Arguments arguments)
      (hextension : Extension extension) (himplementation : Implementation implementation) (h : Core .members ss) :
      Core .declaration (codeWord "class" :: codeWord x :: (arguments ++ (extension ++ (implementation ++ bracketed .curly ss))))
  | noMembers : Core .members []
  | moreMembers {ss us : List Sym} (h : Core .member ss) (hothers : Core .members us) : Core .members (ss ++ us)
  | field {ss : List Sym} (h : Field ss) : Core .member (ss ++ [codeMark ";"])
  | initialised {t : Bool} {ss us : List Sym} (h : Field ss) (hvalue : Core (.expression false true t) us) :
      Core .member (ss ++ codeMark "=" :: (us ++ [codeMark ";"]))
  | method {x : String} {modifiers ss result us : List Sym} (hmodifiers : Modifiers modifiers) (hx : Ordinary x)
      (h : Core .signature ss) (hresult : Annotated false result) (hbody : Core .block us) :
      Core .member (modifiers ++ codeWord x :: (ss ++ (result ++ us)))
  -- statements
  | block {ss : List Sym} (h : Core .statements ss) : Core .block (bracketed .curly ss)
  | noStatements : Core .statements []
  | moreStatements {ss us : List Sym} (h : Core .statement ss) (hothers : Core .statements us) : Core .statements (ss ++ us)
  | declared {ss : List Sym} (h : Core .declaration ss) : Core .statement ss
  | exported {ss : List Sym} (h : Core .declaration ss) : Core .statement (codeWord "export" :: ss)
  | typeDeclared {ss : List Sym} (h : TypeDeclaration ss) : Core .statement ss
  | typeExported {ss : List Sym} (h : TypeDeclaration ss) : Core .statement (typedWord "export" :: ss)
  | branch {w : String} {t : Bool} {ss us : List Sym} (hw : w ∈ ["if", "while"]) (h : Core (.expression false false t) ss)
      (hbody : Core .block us) : Core (.branch w) (codeWord w :: (bracketed .round ss ++ us))
  | alone {w : String} {ss : List Sym} (h : Core (.branch w) ss) : Core .choice ss
  | otherwise {ss us : List Sym} (h : Core (.branch "if") ss) (hother : Core .block us) : Core .choice (ss ++ codeWord "else" :: us)
  | otherwiseIf {ss us : List Sym} (h : Core (.branch "if") ss) (hother : Core .choice us) : Core .choice (ss ++ codeWord "else" :: us)
  | choice {ss : List Sym} (h : Core .choice ss) : Core .statement ss
  | leave : Core .statement [codeWord "return", codeMark ";"]
  | answer {t : Bool} {ss : List Sym} (h : Core (.expression false false t) ss) :
      Core .statement (codeWord "return" :: (ss ++ [codeMark ";"]))
  | evaluate {t : Bool} {ss : List Sym} (h : Core (.expression false false t) ss) (hbegins : beginsStatement ss = true) :
      Core .statement (ss ++ [codeMark ";"])
  | update {ss : List Sym} {op : String} (h : Core .primary ss) (hbegins : beginsStatement ss = true) (hop : op ∈ ["++", "--"]) :
      Core .statement (ss ++ [codeMark op, codeMark ";"])

end ScriptLoader.Syntax
