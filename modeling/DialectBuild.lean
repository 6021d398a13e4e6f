import DialectBuild.Build.Discovery
import DialectBuild.Build.Link
import DialectBuild.Build.Run
import DialectBuild.Clock
import DialectBuild.Code.Declaration
import DialectBuild.Code.Lexeme
import DialectBuild.Code.Token
import DialectBuild.CommandLine.Arguments
import DialectBuild.CommandLine.Command
import DialectBuild.CommandLine.Grammar
import DialectBuild.CommandLine.Run
import DialectBuild.CommandLine.Table
import DialectBuild.Console
import DialectBuild.Directive.Basic
import DialectBuild.Directive.Reading
import DialectBuild.Failure
import DialectBuild.Files.Operations
import DialectBuild.Files.Resolve
import DialectBuild.Files.Tree
import DialectBuild.Files.Walk
import DialectBuild.Header
import DialectBuild.Import.Expansion
import DialectBuild.Import.Marker
import DialectBuild.Include.Injection
import DialectBuild.Include.Position
import DialectBuild.Main
import DialectBuild.Notice
import DialectBuild.Path
import DialectBuild.Shell.Format
import DialectBuild.Shell.Pattern
import DialectBuild.Shell.Reader
import DialectBuild.Shell.Run
import DialectBuild.Shell.Syntax
import DialectBuild.Shell.Tools
import DialectBuild.Shell.Utility
import DialectBuild.Text.Basic
import DialectBuild.Text.Columns
import DialectBuild.Text.Encoding
import DialectBuild.Text.Line
import DialectBuild.Text.Property.Alphanumeric
import DialectBuild.Text.Property.Blank
import DialectBuild.Text.Property.Digit
import DialectBuild.Text.Property.Printable
import DialectBuild.Text.Property.Range
import DialectBuild.Text.Property.Uppercase
import DialectBuild.Text.Property.Width
import DialectBuild.Text.Quoted
import DialectBuild.Text.Scan
import DialectBuild.Text.ShellWords
import DialectBuild.Tool.Basic
import DialectBuild.Tool.Scripted
import DialectBuild.Toolchain
import DialectBuild.Unit.Artifact
import DialectBuild.Unit.Basic
import DialectBuild.Unit.Stage
import DialectBuild.Workspace
import DialectBuild.Proofs.BufferedReading
import DialectBuild.Proofs.DirectiveFree
import DialectBuild.Proofs.Outcome
import DialectBuild.Proofs.EveryOutcome
import DialectBuild.Proofs.ForeignFailures
import DialectBuild.Proofs.SettledText
import DialectBuild.Proofs.Naming
import DialectBuild.Proofs.IncludeLine
import DialectBuild.Proofs.Injecting
import DialectBuild.Proofs.DeskWork
import DialectBuild.Proofs.Rerun
import DialectBuild.Proofs.WalkSteps
import DialectBuild.Proofs.PlainFiles
import DialectBuild.Proofs.NameOrder
import DialectBuild.Proofs.Territory
import DialectBuild.Proofs.SoundTree
import DialectBuild.Proofs.AlikeFiles
import DialectBuild.Proofs.UnitRuns
import DialectBuild.Proofs.BuildPhases
import DialectBuild.Proofs.BuildGround
import DialectBuild.Proofs.Rebuild
import DialectBuild.Proofs.Visibility
import DialectBuild.Proofs.Leftovers
import DialectBuild.Proofs.EveryStage
import DialectBuild.Proofs.EveryBuild
import DialectBuild.Proofs.ToolPlan
import DialectBuild.Proofs.LexemeReading
import DialectBuild.Proofs.Rereading
import DialectBuild.Proofs.Prototype
import DialectBuild.Proofs.Interruption
import DialectBuild.Proofs.LineContext
import DialectBuild.Proofs.DroppedText
import DialectBuild.Proofs.MarkerSpelling
import DialectBuild.Proofs.QuietMarkers
import DialectBuild.Proofs.LineNumbers
import DialectBuild.Proofs.LeadingBlock
import DialectBuild.Proofs.CleanPlace
import DialectBuild.Proofs.LiveInclude
import DialectBuild.Proofs.BuiltFiles
import DialectBuild.Proofs.FailedUnit
import DialectBuild.Proofs.AlikeWalks
import DialectBuild.Proofs.CleanSlate
import DialectBuild.Proofs.AtomicWrites
import DialectBuild.Proofs.SameOutline
import DialectBuild.Proofs.UnitOrder
import DialectBuild.Proofs.WholeItems
import DialectBuild.Proofs.ByteLines
import DialectBuild.Proofs.LinkedFiles
import DialectBuild.Proofs.Refusals
import DialectBuild.Proofs.ChildPaths
import DialectBuild.Proofs.TemporaryFiles
import DialectBuild.Proofs.ByteStripping
import DialectBuild.Proofs.StageFailures
import DialectBuild.Proofs.ReportedFailures
import DialectBuild.Proofs.CleanText
import DialectBuild.Proofs.CompiledCode
import DialectBuild.Proofs.SignatureShape
import DialectBuild.Proofs.AlikeTokens
import DialectBuild.Proofs.TokenPlaces
import DialectBuild.Proofs.JoinedTexts
import DialectBuild.Proofs.CarriageReturns
import DialectBuild.Proofs.ReturnedTokens
import DialectBuild.Proofs.LineEndStyle
import DialectBuild.Proofs.GuardNames
import DialectBuild.Proofs.InsertedIncludes
import DialectBuild.Proofs.ImportedOnce
import DialectBuild.Proofs.CleanFailures
import DialectBuild.Proofs.Discovered
import DialectBuild.Proofs.DebugSetting
import DialectBuild.Proofs.CommandLines
import DialectBuild.Proofs.BinaryRounding
import DialectBuild.Proofs.TokenCoverage
import DialectBuild.Proofs.GeneratedNames
import DialectBuild.Proofs.TimeStamps
