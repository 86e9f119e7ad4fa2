import GoConventions.Analysis
import GoConventions.CommandLine.Options
import GoConventions.CommandLine.Program
import GoConventions.CommandLine.RuleIds
import GoConventions.Convention.Context
import GoConventions.Convention.Documentation
import GoConventions.Convention.Errors
import GoConventions.Convention.Imports
import GoConventions.Convention.Layout
import GoConventions.Convention.Naming
import GoConventions.Convention.Organization
import GoConventions.Files.Access
import GoConventions.Files.Loading
import GoConventions.Files.Path
import GoConventions.Files.Store
import GoConventions.Files.Tree
import GoConventions.Finding.Aggregation
import GoConventions.Finding.Basic
import GoConventions.Fix.Patch
import GoConventions.Fix.Synthesis
import GoConventions.Json.Display
import GoConventions.Json.Printer
import GoConventions.Json.Reader
import GoConventions.Json.Value
import GoConventions.Json.WholeNumber
import GoConventions.Log
import GoConventions.Main
import GoConventions.Number.Binary64
import GoConventions.Number.Shortest
import GoConventions.Order.Sorting
import GoConventions.Proofs.Analysis.Cancellation
import GoConventions.Proofs.Analysis.CompletedSentences
import GoConventions.Proofs.Analysis.Contributions
import GoConventions.Proofs.Analysis.DocReports
import GoConventions.Proofs.Analysis.EvaluatorOrder
import GoConventions.Proofs.Analysis.Exclusion
import GoConventions.Proofs.Analysis.FailureReports
import GoConventions.Proofs.Analysis.FreshNames
import GoConventions.Proofs.Analysis.Isolation
import GoConventions.Proofs.Analysis.Names
import GoConventions.Proofs.Analysis.Patches
import GoConventions.Proofs.Analysis.Reattachments
import GoConventions.Proofs.Analysis.Renames
import GoConventions.Proofs.Analysis.Reports
import GoConventions.Proofs.Analysis.Run
import GoConventions.Proofs.Analysis.Soundness
import GoConventions.Proofs.Convention.CommentLines
import GoConventions.Proofs.Convention.Discards
import GoConventions.Proofs.Convention.Documented
import GoConventions.Proofs.Convention.ErrorLiterals
import GoConventions.Proofs.Convention.ErrorTexts
import GoConventions.Proofs.Convention.ImportBlocks
import GoConventions.Proofs.Convention.ImportGroups
import GoConventions.Proofs.Convention.Initialisms
import GoConventions.Proofs.Convention.MixedCaps
import GoConventions.Proofs.Convention.NameLetters
import GoConventions.Proofs.Convention.Nesting
import GoConventions.Proofs.Convention.Reattachment
import GoConventions.Proofs.Convention.Receivers
import GoConventions.Proofs.Convention.Remarks
import GoConventions.Proofs.Convention.Requests
import GoConventions.Proofs.Convention.Restriction
import GoConventions.Proofs.Convention.Sentences
import GoConventions.Proofs.Convention.SentinelNames
import GoConventions.Proofs.Convention.StatedRules
import GoConventions.Proofs.Files.Loading
import GoConventions.Proofs.Finding.Account
import GoConventions.Proofs.Finding.Aggregation
import GoConventions.Proofs.Finding.Batches
import GoConventions.Proofs.Finding.Duplicates
import GoConventions.Proofs.Finding.Listing
import GoConventions.Proofs.Fix.Application
import GoConventions.Proofs.Fix.Renaming
import GoConventions.Proofs.Fix.Resolution
import GoConventions.Proofs.Fix.Unpatched
import GoConventions.Proofs.Order.Sorted
import GoConventions.Proofs.Result
import GoConventions.Proofs.Rule.Catalog
import GoConventions.Proofs.Rule.Exclusions
import GoConventions.Proofs.Rule.Validation
import GoConventions.Proofs.Settings.Keys
import GoConventions.Proofs.Settings.Reader
import GoConventions.Proofs.Settings.Validation
import GoConventions.Proofs.Source.BlankGap
import GoConventions.Proofs.Source.ByteOffset
import GoConventions.Proofs.Source.JoinedLines
import GoConventions.Proofs.Source.LineColumns
import GoConventions.Proofs.Source.Lines
import GoConventions.Proofs.Source.LinesBefore
import GoConventions.Proofs.Source.Position
import GoConventions.Proofs.Source.Spans
import GoConventions.Proofs.Source.Trimming
import GoConventions.Proofs.Source.WordPlaces
import GoConventions.Proofs.Source.WrittenCharacters
import GoConventions.Proofs.Tree.Anchors
import GoConventions.Proofs.Tree.Calls
import GoConventions.Proofs.Tree.CollectedComments
import GoConventions.Proofs.Tree.Comments
import GoConventions.Proofs.Tree.DocComments
import GoConventions.Proofs.Tree.File
import GoConventions.Proofs.Tree.Forms
import GoConventions.Proofs.Tree.Growth
import GoConventions.Proofs.Tree.History
import GoConventions.Proofs.Tree.Identifiers
import GoConventions.Proofs.Tree.Initialisers
import GoConventions.Proofs.Tree.LinkedFile
import GoConventions.Proofs.Tree.LinkedWalk
import GoConventions.Proofs.Tree.Linking
import GoConventions.Proofs.Tree.Mentions
import GoConventions.Proofs.Tree.Nested
import GoConventions.Proofs.Tree.Nodes
import GoConventions.Proofs.Tree.Occurrences
import GoConventions.Proofs.Tree.Positions
import GoConventions.Proofs.Tree.Ranges
import GoConventions.Proofs.Tree.RegisteredFile
import GoConventions.Proofs.Tree.RegisteredWalk
import GoConventions.Proofs.Tree.Registration
import GoConventions.Proofs.Tree.ScopeLists
import GoConventions.Proofs.Tree.Scopes
import GoConventions.Proofs.Tree.Specified
import GoConventions.Proofs.Tree.Standing
import GoConventions.Proofs.Tree.Steps
import GoConventions.Proofs.Tree.TranscribedFile
import GoConventions.Proofs.Tree.TranscribedWalk
import GoConventions.Proofs.Tree.Transcription
import GoConventions.Proofs.Tree.Walk
import GoConventions.Report.Basic
import GoConventions.Report.Json
import GoConventions.Report.RuleTable
import GoConventions.Rule.Basic
import GoConventions.Rule.Catalog
import GoConventions.Rule.Packaged
import GoConventions.Rule.Severity
import GoConventions.Settings.Basic
import GoConventions.Settings.Reader
import GoConventions.Source.Comment
import GoConventions.Source.Literal
import GoConventions.Source.Name
import GoConventions.Source.Position
import GoConventions.Source.Unit
import GoConventions.Text.Blank
import GoConventions.Text.ByteOffset
import GoConventions.Text.Case
import GoConventions.Text.CaseTable
import GoConventions.Text.CasedTable
import GoConventions.Text.DigitTable
import GoConventions.Text.Digits
import GoConventions.Text.Layout
import GoConventions.Text.Lines
import GoConventions.Text.PrintableTable
import GoConventions.Text.Quoted
import GoConventions.Text.Search
import GoConventions.Text.Slice
import GoConventions.Tree.Comments
import GoConventions.Tree.Draft
import GoConventions.Tree.Fault
import GoConventions.Tree.File
import GoConventions.Tree.Imports
import GoConventions.Tree.Node
import GoConventions.Tree.Signature
import GoConventions.Tree.Walk
