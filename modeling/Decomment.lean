import Decomment.CommandLine
import Decomment.Configuration
import Decomment.Configuration.Commands
import Decomment.Console
import Decomment.DryRun
import Decomment.Editor.Commands
import Decomment.Editor.Format
import Decomment.Editor.Registry
import Decomment.Failure
import Decomment.Glob.Comparison
import Decomment.Glob.Expression
import Decomment.Glob.Matching
import Decomment.Glob.Pattern
import Decomment.Hunk
import Decomment.Ignore
import Decomment.Ignore.Exclude
import Decomment.Ignore.Level
import Decomment.Json.Double
import Decomment.Json.Number
import Decomment.Json.Reader
import Decomment.Json.Token
import Decomment.Json.Value
import Decomment.Json.Writer
import Decomment.Keep
import Decomment.Keyed
import Decomment.Language
import Decomment.LineSpan
import Decomment.Main
import Decomment.Marker
import Decomment.Outcome
import Decomment.Path
import Decomment.Process
import Decomment.Proofs.BatchOrder
import Decomment.Proofs.ByteOffsets
import Decomment.Proofs.ChangedLines
import Decomment.Proofs.CheckedCuts
import Decomment.Proofs.ClosedBlock
import Decomment.Proofs.ContextWindows
import Decomment.Proofs.Cuts
import Decomment.Proofs.ExcludedFiles
import Decomment.Proofs.FailedQuestions
import Decomment.Proofs.Footprint
import Decomment.Proofs.FreshScan
import Decomment.Proofs.HookCommands
import Decomment.Proofs.HunkHeaders
import Decomment.Proofs.Idempotence
import Decomment.Proofs.JobWrites
import Decomment.Proofs.JsonNesting
import Decomment.Proofs.JsonText
import Decomment.Proofs.LineAccounts
import Decomment.Proofs.LineEndings
import Decomment.Proofs.ListedNames
import Decomment.Proofs.Locations
import Decomment.Proofs.MadeDirectories
import Decomment.Proofs.MergedChanges
import Decomment.Proofs.Modes
import Decomment.Proofs.OwnHook
import Decomment.Proofs.PathOrder
import Decomment.Proofs.PatternLanguage
import Decomment.Proofs.Preview
import Decomment.Proofs.PrintedDiffs
import Decomment.Proofs.QuoteScan
import Decomment.Proofs.RangeUnion
import Decomment.Proofs.Residue
import Decomment.Proofs.RuleTable
import Decomment.Proofs.RunJobs
import Decomment.Proofs.SavedSettings
import Decomment.Proofs.SecondRun
import Decomment.Proofs.SettingsFile
import Decomment.Proofs.SettingsText
import Decomment.Proofs.SinglePass
import Decomment.Proofs.StringLiteral
import Decomment.Proofs.TouchedFiles
import Decomment.Proofs.TrailingBlanks
import Decomment.Proofs.WalkedFiles
import Decomment.Repository
import Decomment.Run
import Decomment.Strip
import Decomment.Text.Blank
import Decomment.Text.Digit
import Decomment.Text.Extending
import Decomment.Text.Invisible
import Decomment.Text.Lines
import Decomment.Text.Ranges
import Decomment.Text.Search
import Decomment.Text.Utf8
import Decomment.Toml.Document
import Decomment.Toml.Node
import Decomment.Toml.Quoted
import Decomment.Toml.Scalar
import Decomment.Tree
import Decomment.Walk
import Decomment.Word
