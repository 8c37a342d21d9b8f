/-!
# Module specifiers

A source names other modules by specifiers. One that begins with a step in the file system is relative to the module that names it;
others are names of packages or addresses.
-/

namespace ScriptLoader.Syntax

/-- A module specifier that the source names, and the line on which it stands. -/
structure Specifier where
  text : String
  line : Nat
  deriving DecidableEq, Repr

/-- Specifiers that begin so are relative to the module that names them. -/
def relativePrefixes : List String := ["./", "../"]

/-- A specifier that is relative to the module that names it. -/
def isRelative (s : String) : Bool := relativePrefixes.any fun p => p.toList.isPrefixOf s.toList

/-- The path of a reference comment as a specifier: relative, unless the path is absolute. -/
def relativeSpecifier (path : String) : String :=
  if isRelative path || path.toList.head? == some '/' then path else "./" ++ path

end ScriptLoader.Syntax
