import ScriptLoader.Address
import ScriptLoader.Cache.Code
import ScriptLoader.Cache.Disk
import ScriptLoader.Cache.Entry
import ScriptLoader.Command.Run
import ScriptLoader.Command.Words
import ScriptLoader.CommandLine.Options
import ScriptLoader.CommandLine.Run
import ScriptLoader.Compiler
import ScriptLoader.Config
import ScriptLoader.Digest.Sha256
import ScriptLoader.Error
import ScriptLoader.Files.Access
import ScriptLoader.Files.RealPath
import ScriptLoader.Files.System
import ScriptLoader.Files.Walk
import ScriptLoader.Json.Members
import ScriptLoader.Json.Text
import ScriptLoader.Json.Token
import ScriptLoader.Loader
import ScriptLoader.Lookup
import ScriptLoader.Main
import ScriptLoader.Path
import ScriptLoader.Process.Arguments
import ScriptLoader.Process.Machine
import ScriptLoader.Process.Marked
import ScriptLoader.Process.Raw
import ScriptLoader.Process.Routine
import ScriptLoader.Program.ByteSet
import ScriptLoader.Program.Copying
import ScriptLoader.Program.Counting
import ScriptLoader.Program.Echoing
import ScriptLoader.Program.Exchange
import ScriptLoader.Program.Heading
import ScriptLoader.Program.Pause
import ScriptLoader.Program.Quantity
import ScriptLoader.Proofs.Action
import ScriptLoader.Proofs.Cache.Code
import ScriptLoader.Proofs.Cache.Disk
import ScriptLoader.Proofs.Cache.Entry
import ScriptLoader.Proofs.Cache.Failures
import ScriptLoader.Proofs.Cache.Mirror
import ScriptLoader.Proofs.Core.Dropping
import ScriptLoader.Proofs.Core.Edges
import ScriptLoader.Proofs.Core.Erasure
import ScriptLoader.Proofs.Core.Grammar
import ScriptLoader.Proofs.Core.Keeping
import ScriptLoader.Proofs.Core.Phrases
import ScriptLoader.Proofs.Core.SkipDeclaration
import ScriptLoader.Proofs.Core.SkipType
import ScriptLoader.Proofs.Core.Statements
import ScriptLoader.Proofs.Core.Symbols
import ScriptLoader.Proofs.Core.Types
import ScriptLoader.Proofs.Core.View
import ScriptLoader.Proofs.Eraser.Moves
import ScriptLoader.Proofs.Eraser.Readback
import ScriptLoader.Proofs.Eraser.Run
import ScriptLoader.Proofs.Eraser.Subsequence
import ScriptLoader.Proofs.Eraser.Verbatim
import ScriptLoader.Proofs.Eraser.Words
import ScriptLoader.Proofs.Files.Access
import ScriptLoader.Proofs.Files.Names
import ScriptLoader.Proofs.Files.Walk
import ScriptLoader.Proofs.Json.Readback
import ScriptLoader.Proofs.Lexer.Ink
import ScriptLoader.Proofs.Lexer.Lexeme
import ScriptLoader.Proofs.Lexer.Meaning
import ScriptLoader.Proofs.Lexer.Munch
import ScriptLoader.Proofs.Lexer.Readback
import ScriptLoader.Proofs.Lexer.Tiling
import ScriptLoader.Proofs.Loader.Caching
import ScriptLoader.Proofs.Loader.Command
import ScriptLoader.Proofs.Loader.Failures
import ScriptLoader.Proofs.Loader.Opening
import ScriptLoader.Proofs.Loader.Requests
import ScriptLoader.Proofs.Loader.Resolution
import ScriptLoader.Proofs.Loader.Stages
import ScriptLoader.Proofs.Lookup
import ScriptLoader.Proofs.Path
import ScriptLoader.Proofs.Results
import ScriptLoader.Proofs.Text.Utf8
import ScriptLoader.Proofs.Uri.File
import ScriptLoader.Reading
import ScriptLoader.Resolution
import ScriptLoader.Shell.Arithmetic
import ScriptLoader.Shell.Builtin.Flow
import ScriptLoader.Shell.Builtin.Jobs
import ScriptLoader.Shell.Builtin.Options
import ScriptLoader.Shell.Builtin.Output
import ScriptLoader.Shell.Builtin.Places
import ScriptLoader.Shell.Builtin.Table
import ScriptLoader.Shell.Builtin.Variables
import ScriptLoader.Shell.Condition
import ScriptLoader.Shell.Decimal
import ScriptLoader.Shell.Engine
import ScriptLoader.Shell.Escapes
import ScriptLoader.Shell.Evaluate
import ScriptLoader.Shell.Expansion
import ScriptLoader.Shell.Fields
import ScriptLoader.Shell.Format
import ScriptLoader.Shell.Grammar
import ScriptLoader.Shell.Invocation
import ScriptLoader.Shell.Pathnames
import ScriptLoader.Shell.Pattern
import ScriptLoader.Shell.Programs
import ScriptLoader.Shell.Redirect
import ScriptLoader.Shell.Scanner
import ScriptLoader.Shell.Script
import ScriptLoader.Shell.Signal
import ScriptLoader.Shell.State
import ScriptLoader.Shell.Token
import ScriptLoader.Shell.Tree
import ScriptLoader.Source
import ScriptLoader.Syntax.Bracket
import ScriptLoader.Syntax.Declaration
import ScriptLoader.Syntax.Eraser
import ScriptLoader.Syntax.Lexer
import ScriptLoader.Syntax.Rest
import ScriptLoader.Syntax.Specifier
import ScriptLoader.Syntax.Token
import ScriptLoader.Syntax.TypeSyntax
import ScriptLoader.Text.Blank
import ScriptLoader.Text.CaseTable
import ScriptLoader.Text.Digit
import ScriptLoader.Text.Encoding
import ScriptLoader.Text.Fields
import ScriptLoader.Text.Lower
import ScriptLoader.Text.Printable
import ScriptLoader.Text.Quoted
import ScriptLoader.Text.Ranges
import ScriptLoader.Text.UnassignedTable
import ScriptLoader.Text.Utf8
import ScriptLoader.Text.Width
import ScriptLoader.Uri.Host
import ScriptLoader.Uri.Percent
import ScriptLoader.Uri.Reference
import ScriptLoader.World
import ScriptLoader.Proofs.Loader.Keeping
import ScriptLoader.Proofs.Loader.Sharing
import ScriptLoader.Proofs.Config
import ScriptLoader.Proofs.Files.RealPath
import ScriptLoader.Proofs.Uri.Join
import ScriptLoader.Proofs.Loader.Imports
import ScriptLoader.Proofs.Loader.Identity
import ScriptLoader.Proofs.Cache.Changes
import ScriptLoader.Proofs.Loader.Dialogue
import ScriptLoader.Proofs.Loader.History
import ScriptLoader.Proofs.Loader.Making
import ScriptLoader.Proofs.CommandLine.Delivery
import ScriptLoader.Proofs.CommandLine.Runs
import ScriptLoader.Proofs.Core.TypeExtent
import ScriptLoader.Proofs.Core.Conditional
import ScriptLoader.Proofs.Core.TypeParameters
import ScriptLoader.Proofs.Core.Casts
import ScriptLoader.Proofs.Core.ClassHeader
import ScriptLoader.Proofs.Eraser.Brackets
import ScriptLoader.Proofs.Eraser.ModuleDeclaration
import ScriptLoader.Proofs.Eraser.ModuleSequence
import ScriptLoader.Proofs.Loader.Runs
import ScriptLoader.Proofs.Loader.Stability
import ScriptLoader.Proofs.Loader.Refusals
import ScriptLoader.Proofs.Eraser.Growth
import ScriptLoader.Proofs.Eraser.Literals
import ScriptLoader.Proofs.Eraser.Neighbours
import ScriptLoader.Proofs.Lexer.Literals
import ScriptLoader.Proofs.Core.SkipStatement
import ScriptLoader.Proofs.Core.TypeBrackets
import ScriptLoader.Proofs.Core.Ambient
import ScriptLoader.Proofs.Core.TypeEnd
import ScriptLoader.Proofs.Lexer.Places
import ScriptLoader.Proofs.Eraser.Ending
import ScriptLoader.Proofs.Eraser.Copies
import ScriptLoader.Proofs.Eraser.CopiedTokens
import ScriptLoader.Proofs.Eraser.ObjectLiterals
import ScriptLoader.Proofs.Eraser.ClassFields
import ScriptLoader.Proofs.Eraser.KeptBrackets
import ScriptLoader.Proofs.Files.Links
import ScriptLoader.Proofs.Lookup.SearchPath
import ScriptLoader.Proofs.Lookup.Package
import ScriptLoader.Proofs.Core.Bare
import ScriptLoader.Proofs.Core.BareTypes
import ScriptLoader.Proofs.Eraser.Layout
import ScriptLoader.Proofs.Lexer.Resumption
import ScriptLoader.Proofs.Uri.Roundtrip
import ScriptLoader.Proofs.Files.Directories
import ScriptLoader.Proofs.Cache.RefusedWrites
import ScriptLoader.Proofs.CommandLine.AllOrNothing
import ScriptLoader.Proofs.Eraser.ArgumentLists
