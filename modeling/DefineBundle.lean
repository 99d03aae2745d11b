import DefineBundle.Assoc
import DefineBundle.Build
import DefineBundle.Bundle.Content
import DefineBundle.Bundle.Development
import DefineBundle.Bundle.Generate
import DefineBundle.Bundle.Loader
import DefineBundle.Bundle.Minified
import DefineBundle.Bundle.Readable
import DefineBundle.Bundle.ShortNames
import DefineBundle.Bundle.Tools
import DefineBundle.CommandLine.Arguments
import DefineBundle.CommandLine.Reach
import DefineBundle.CommandLine.Run
import DefineBundle.CommandLine.Usage
import DefineBundle.Discovery.Basic
import DefineBundle.Discovery.Entries
import DefineBundle.Discovery.Load
import DefineBundle.Discovery.Source
import DefineBundle.Failure
import DefineBundle.Files.Cache
import DefineBundle.Files.Disk
import DefineBundle.Files.Listing
import DefineBundle.Files.View
import DefineBundle.Files.Walk
import DefineBundle.Fingerprint.Basic
import DefineBundle.Fingerprint.Marker
import DefineBundle.Fingerprint.Sha256
import DefineBundle.Json.Decode
import DefineBundle.Json.Number
import DefineBundle.Json.Parse
import DefineBundle.Json.Text
import DefineBundle.Json.Value
import DefineBundle.Main
import DefineBundle.Module.Basic
import DefineBundle.Module.ClassDoc
import DefineBundle.Module.Exposure
import DefineBundle.Module.Location
import DefineBundle.Options.Basic
import DefineBundle.Options.Document
import DefineBundle.Options.Settings
import DefineBundle.Path.Basic
import DefineBundle.Path.Glob
import DefineBundle.Path.Glob.Match
import DefineBundle.Path.Native
import DefineBundle.Proofs.Build.Delivering
import DefineBundle.Proofs.Build.Effects
import DefineBundle.Proofs.Build.History
import DefineBundle.Proofs.Build.Instrumenting
import DefineBundle.Proofs.Build.Repeating
import DefineBundle.Proofs.Build.Reports
import DefineBundle.Proofs.Build.Retry
import DefineBundle.Proofs.Build.Sessions
import DefineBundle.Proofs.Build.Skipping
import DefineBundle.Proofs.Build.Writing
import DefineBundle.Proofs.Bundle.Aliases
import DefineBundle.Proofs.Bundle.DevelopmentCode
import DefineBundle.Proofs.Bundle.DevelopmentLoader
import DefineBundle.Proofs.Bundle.DevelopmentScript
import DefineBundle.Proofs.Bundle.FileListing
import DefineBundle.Proofs.Bundle.FileMembers
import DefineBundle.Proofs.Bundle.FileOrder
import DefineBundle.Proofs.Bundle.Hygiene
import DefineBundle.Proofs.Bundle.Insertion
import DefineBundle.Proofs.Bundle.LegalNames
import DefineBundle.Proofs.Bundle.LoaderScript
import DefineBundle.Proofs.Bundle.Making
import DefineBundle.Proofs.Bundle.PlainText
import DefineBundle.Proofs.Bundle.Renamed
import DefineBundle.Proofs.Bundle.ShortNames
import DefineBundle.Proofs.CommandLine.Flags
import DefineBundle.Proofs.CommandLine.Precedence
import DefineBundle.Proofs.Discovery.Agenda
import DefineBundle.Proofs.Discovery.Chains
import DefineBundle.Proofs.Discovery.Culprits
import DefineBundle.Proofs.Discovery.Cycles
import DefineBundle.Proofs.Discovery.Duplicates
import DefineBundle.Proofs.Discovery.Expansion
import DefineBundle.Proofs.Discovery.Lookup
import DefineBundle.Proofs.Discovery.Order
import DefineBundle.Proofs.Discovery.PlainEntries
import DefineBundle.Proofs.Discovery.Reachability
import DefineBundle.Proofs.Discovery.Rearrangement
import DefineBundle.Proofs.Discovery.Repeatable
import DefineBundle.Proofs.Discovery.Spellings
import DefineBundle.Proofs.Discovery.Termination
import DefineBundle.Proofs.Files.Caching
import DefineBundle.Proofs.Files.Denotations
import DefineBundle.Proofs.Files.Finding
import DefineBundle.Proofs.Files.Isolation
import DefineBundle.Proofs.Files.LinkedWalks
import DefineBundle.Proofs.Files.Links
import DefineBundle.Proofs.Files.Locations
import DefineBundle.Proofs.Files.Lookup
import DefineBundle.Proofs.Files.Trees
import DefineBundle.Proofs.Files.Walks
import DefineBundle.Proofs.Files.Ways
import DefineBundle.Proofs.Files.Writes
import DefineBundle.Proofs.Fingerprint.Determined
import DefineBundle.Proofs.Fingerprint.Marker
import DefineBundle.Proofs.Fingerprint.Preimage
import DefineBundle.Proofs.Json.ReadBack
import DefineBundle.Proofs.Json.WrittenValues
import DefineBundle.Proofs.Layout.FileIds
import DefineBundle.Proofs.Layout.LibraryOrder
import DefineBundle.Proofs.Layout.Owners
import DefineBundle.Proofs.Layout.Resolution
import DefineBundle.Proofs.Layout.Separators
import DefineBundle.Proofs.Lists.FirstPlaces
import DefineBundle.Proofs.Lists.Traversals
import DefineBundle.Proofs.Module.Documentation
import DefineBundle.Proofs.Options.NativeSettings
import DefineBundle.Proofs.Options.Settings
import DefineBundle.Proofs.Options.SettingsText
import DefineBundle.Proofs.Options.WrittenOptions
import DefineBundle.Proofs.Path.NativePaths
import DefineBundle.Proofs.Path.NormalForm
import DefineBundle.Proofs.Path.Patterns
import DefineBundle.Proofs.Path.Relative
import DefineBundle.Proofs.Script.DefineCalls
import DefineBundle.Proofs.Script.Literals
import DefineBundle.Proofs.Script.OutermostCalls
import DefineBundle.Proofs.Script.PlainExpressions
import DefineBundle.Proofs.Script.PlainForm.Characters
import DefineBundle.Proofs.Script.PlainForm.Escapes
import DefineBundle.Proofs.Script.PlainForm.Expressions
import DefineBundle.Proofs.Script.PlainForm.Functions
import DefineBundle.Proofs.Script.PlainForm.Meaning
import DefineBundle.Proofs.Script.PlainForm.Modules
import DefineBundle.Proofs.Script.PlainForm.Numbers
import DefineBundle.Proofs.Script.PlainForm.Patterns
import DefineBundle.Proofs.Script.PlainForm.RawTexts
import DefineBundle.Proofs.Script.PlainForm.Readers
import DefineBundle.Proofs.Script.PlainForm.Respelled
import DefineBundle.Proofs.Script.PlainForm.Scripts
import DefineBundle.Proofs.Script.PlainForm.Statements
import DefineBundle.Proofs.Script.PlainForm.Strings
import DefineBundle.Proofs.Script.PlainForm.Tokens
import DefineBundle.Proofs.Script.PlainForm.Trivia
import DefineBundle.Proofs.Script.PlainForm.Types
import DefineBundle.Proofs.Script.PlainLists
import DefineBundle.Proofs.Script.PlainScripts
import DefineBundle.Proofs.Script.PlainStatements
import DefineBundle.Proofs.Script.Punctuation
import DefineBundle.Proofs.Script.Reading
import DefineBundle.Proofs.Script.Renaming
import DefineBundle.Proofs.Script.Spelling
import DefineBundle.Proofs.Script.Splicing
import DefineBundle.Proofs.Script.Variables
import DefineBundle.Proofs.Script.Writing
import DefineBundle.Proofs.Script.WrittenScripts
import DefineBundle.Proofs.Text.Escaping
import DefineBundle.Proofs.Text.Identifiers
import DefineBundle.Proofs.Text.Pieces
import DefineBundle.Proofs.Text.Placeholders
import DefineBundle.Proofs.Text.Quoting
import DefineBundle.Proofs.Text.Replacement
import DefineBundle.Proofs.Text.Search
import DefineBundle.Proofs.Text.VersionTokens
import DefineBundle.Report
import DefineBundle.Script.DefineCall
import DefineBundle.Script.Exported
import DefineBundle.Script.Grammar.Cursor
import DefineBundle.Script.Grammar.Expression
import DefineBundle.Script.Grammar.Function
import DefineBundle.Script.Grammar.Goal
import DefineBundle.Script.Grammar.Module
import DefineBundle.Script.Grammar.Pattern
import DefineBundle.Script.Grammar.Statement
import DefineBundle.Script.Grammar.Type
import DefineBundle.Script.Numeral
import DefineBundle.Script.Parse
import DefineBundle.Script.Print
import DefineBundle.Script.Splice
import DefineBundle.Script.Token
import DefineBundle.Script.Token.Literal
import DefineBundle.Script.Token.Next
import DefineBundle.Script.Token.Trivia
import DefineBundle.Script.Tree
import DefineBundle.Script.Written.Literal
import DefineBundle.Script.Written.Part
import DefineBundle.Script.Written.Piece
import DefineBundle.Script.Written.Place
import DefineBundle.Text.Blank
import DefineBundle.Text.Bytes
import DefineBundle.Text.CharSet
import DefineBundle.Text.Decoded
import DefineBundle.Text.Identifier
import DefineBundle.Text.IdentifierChars
import DefineBundle.Text.PlainAscii
import DefineBundle.Text.Quoted
import DefineBundle.Text.Search
import DefineBundle.Text.SingleQuoted
import DefineBundle.Text.VersionTokens
import DefineBundle.Text.WordChars
