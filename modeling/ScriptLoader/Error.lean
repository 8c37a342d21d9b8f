import ScriptLoader.Syntax.Rest

/-!
# Errors of the loader

What can go wrong while a module is resolved, compiled or cached, and the text that reports it. A cause holds just the data of its
report, so every cause has a message (`Cause.summary`); an error adds the module and the place it concerns. The text is made here
and nowhere else.
-/

namespace ScriptLoader

open Syntax

/-- The causes without their data. -/
inductive ErrorCode where
  | sourceNotFound
  | sourceReadFailed
  | syntaxInvalidCharacter
  | unbalancedBracket
  | unexpectedEndOfInput
  | unsupportedSyntax
  | moduleNotFound
  | compilerFailed
  | compilerUnavailable
  | cacheReadFailed
  | cacheWriteFailed
  deriving DecidableEq, Repr

namespace ErrorCode

/-- All codes. -/
def all : List ErrorCode :=
  [sourceNotFound, sourceReadFailed, syntaxInvalidCharacter, unbalancedBracket, unexpectedEndOfInput, unsupportedSyntax,
   moduleNotFound, compilerFailed, compilerUnavailable, cacheReadFailed, cacheWriteFailed]

/-- The name under which a code is reported. -/
def label : ErrorCode → String
  | sourceNotFound => "SOURCE_NOT_FOUND"
  | sourceReadFailed => "SOURCE_READ_FAILED"
  | syntaxInvalidCharacter => "SYNTAX_INVALID_CHARACTER"
  | unbalancedBracket => "UNBALANCED_BRACKET"
  | unexpectedEndOfInput => "UNEXPECTED_END_OF_INPUT"
  | unsupportedSyntax => "UNSUPPORTED_SYNTAX"
  | moduleNotFound => "MODULE_NOT_FOUND"
  | compilerFailed => "COMPILER_FAILED"
  | compilerUnavailable => "COMPILER_UNAVAILABLE"
  | cacheReadFailed => "CACHE_READ_FAILED"
  | cacheWriteFailed => "CACHE_WRITE_FAILED"

/-- The code with this name. -/
def ofLabel? (s : String) : Option ErrorCode := all.find? (·.label == s)

end ErrorCode

/-- What went wrong. -/
inductive Cause where
  | sourceNotFound
  | sourceReadFailed (details : String)
  | invalidCharacter (char : String)
  | unbalancedBracket (bracket : String)
  | unexpectedEnd (reading : String)
  | unsupportedSyntax (construct : String)
  | moduleNotFound (specifier : String)
  | compilerFailed (status : String)
  | compilerUnavailable (details : String)
  | cacheReadFailed (path details : String)
  | cacheWriteFailed (path details : String)
  deriving DecidableEq, Repr

namespace Cause

def code : Cause → ErrorCode
  | sourceNotFound => .sourceNotFound
  | sourceReadFailed _ => .sourceReadFailed
  | invalidCharacter _ => .syntaxInvalidCharacter
  | unbalancedBracket _ => .unbalancedBracket
  | unexpectedEnd _ => .unexpectedEndOfInput
  | unsupportedSyntax _ => .unsupportedSyntax
  | moduleNotFound _ => .moduleNotFound
  | compilerFailed _ => .compilerFailed
  | compilerUnavailable _ => .compilerUnavailable
  | cacheReadFailed _ _ => .cacheReadFailed
  | cacheWriteFailed _ _ => .cacheWriteFailed

/-- The cause with this code and the data that `field` holds; nothing where data are missing. -/
def ofFields? (field : String → Option String) : ErrorCode → Option Cause
  | .sourceNotFound => some .sourceNotFound
  | .sourceReadFailed => (field "details").map .sourceReadFailed
  | .syntaxInvalidCharacter => (field "char").map .invalidCharacter
  | .unbalancedBracket => (field "char").map .unbalancedBracket
  | .unexpectedEndOfInput => (field "context").map .unexpectedEnd
  | .unsupportedSyntax => (field "construct").map .unsupportedSyntax
  | .moduleNotFound => (field "specifier").map .moduleNotFound
  | .compilerFailed => (field "status").map .compilerFailed
  | .compilerUnavailable => (field "details").map .compilerUnavailable
  | .cacheReadFailed => do return .cacheReadFailed (← field "path") (← field "details")
  | .cacheWriteFailed => do return .cacheWriteFailed (← field "path") (← field "details")

/-- The cause that a fault of the syntax is. -/
def ofFault : Fault → Cause
  | .strayCharacter c => .invalidCharacter (String.singleton c)
  | .unmatchedBracket b => .unbalancedBracket b
  | .unexpectedEnd r => .unexpectedEnd r
  | .unsupported c => .unsupportedSyntax c

/-- What is printed for something that is absent. -/
def absent : String := "None"

/-- The report of a cause that concerns the module `name`. -/
def summary (name : Option String) : Cause → String
  | sourceNotFound => "Could not find source '" ++ name.getD absent ++ "' on the URL, module path or file system."
  | sourceReadFailed d => "Could not read source '" ++ name.getD absent ++ "': " ++ d
  | invalidCharacter c => "Syntax Error: Invalid character '" ++ c ++ "' found."
  | unbalancedBracket b => "Syntax Error: Unmatched bracket '" ++ b ++ "'."
  | unexpectedEnd r => "Syntax Error: Unexpected end of input while reading " ++ r ++ "."
  | unsupportedSyntax c => "'" ++ c ++ "' cannot be erased to plain JavaScript."
  | moduleNotFound s => "Cannot find module '" ++ s ++ "'."
  | compilerFailed s => "Compiler exited with status " ++ s ++ "."
  | compilerUnavailable d => "Could not run compiler: " ++ d
  | cacheReadFailed p d => "Could not read cache entry '" ++ p ++ "': " ++ d
  | cacheWriteFailed p d => "Could not write cache entry '" ++ p ++ "': " ++ d

theorem code_ofFields? {field : String → Option String} {code : ErrorCode} {c : Cause}
    (h : ofFields? field code = some c) : c.code = code := by
  cases code <;> simp only [ofFields?, Option.map_eq_some_iff, Option.some.injEq, Option.bind_eq_bind,
    Option.bind_eq_some_iff, Option.pure_def] at h
  case sourceNotFound => exact h ▸ rfl
  case cacheReadFailed => obtain ⟨_, _, _, _, rfl⟩ := h; rfl
  case cacheWriteFailed => obtain ⟨_, _, _, _, rfl⟩ := h; rfl
  all_goals obtain ⟨_, _, rfl⟩ := h; rfl

end Cause

/-- The part of the loader that an error comes from. -/
inductive ErrorKind where
  | general
  | resolution
  | compilation
  | cacheStore
  deriving DecidableEq, Repr

/-- An error with the module and the place that it concerns. `output` is what a compiler printed about it, if it did. -/
structure LoadError where
  kind : ErrorKind
  cause : Cause
  name : Option String
  line : Option Int
  column : Option Int
  output : Option String
  deriving DecidableEq, Repr

namespace LoadError

/-- A line or a column as it is printed. -/
def printPlace (n : Option Int) : String := (n.map toString).getD Cause.absent

/-- What stands before the report: the module, if it has a name, and the place, if there is a line. -/
def heading (e : LoadError) : String :=
  match e.name with
  | none => ""
  | some name =>
    if name.isEmpty then ""
    else
      match e.line with
      | some line =>
        "Error in '" ++ name ++ "' (Line: " ++ toString line ++ ", Column: " ++ printPlace e.column ++ "):\n"
      | none => "Error in '" ++ name ++ "': "

/-- The full report. -/
def message (e : LoadError) : String := e.heading ++ e.cause.summary e.name

/-- What the user should see: the output of the compiler, or else the report. -/
def diagnostics (e : LoadError) : String := e.output.getD e.message

/-- No source was found, or it could not be read. -/
def resolution (name : String) (cause : Cause) : LoadError := ⟨.resolution, cause, some name, none, none, none⟩

/-- A compiler refused the module `name`. -/
def compilation (name : String) (cause : Cause) (output : Option String) : LoadError :=
  ⟨.compilation, cause, some name, none, none, output⟩

/-- The module `name` is refused at a line and a column. -/
def compilationAt (name : String) (cause : Cause) (place : Option Position) : LoadError :=
  ⟨.compilation, cause, some name, place.map (·.line), place.map (·.column), none⟩

/-- The eraser refused the module `name`. -/
def ofRefusal (name : String) (r : Refusal) : LoadError := compilationAt name (.ofFault r.fault) r.place

/-- The code cache failed. -/
def cacheStore (cause : Cause) : LoadError := ⟨.cacheStore, cause, none, none, none, none⟩

end LoadError

end ScriptLoader
