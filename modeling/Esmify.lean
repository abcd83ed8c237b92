import Esmify.Text.Basic
import Esmify.Text.Blank
import Esmify.Text.Word
import Esmify.Text.Identifier
import Esmify.Text.Printable
import Esmify.Text.Template
import Esmify.Source.Region
import Esmify.Source.Bracket
import Esmify.Source.Statement
import Esmify.Source.FromEnd
import Esmify.Source.Pattern
import Esmify.Source.Lexeme
import Esmify.Fault
import Esmify.Edit
import Esmify.Warning
import Esmify.Revision
import Esmify.Datum
import Esmify.Config
import Esmify.Requirement.Basic
import Esmify.Requirement.Shape
import Esmify.Requirement.Reader
import Esmify.Path.Basic
import Esmify.Path.Glob
import Esmify.Import.Writer
import Esmify.Import.Statement
import Esmify.Export.Basic
import Esmify.Export.Member
import Esmify.Export.Block
import Esmify.Export.Reader
import Esmify.Export.Declaration
import Esmify.Export.Render
import Esmify.Export.Global
import Esmify.Export.Inline
import Esmify.Export.Usage
import Esmify.DefaultIndex
import Esmify.Convert
import Esmify.Number.Rounding
import Esmify.Number.Integer
import Esmify.Progress
import Esmify.File.Encoding
import Esmify.File.Tree
import Esmify.File.Scan
import Esmify.Batch
import Esmify.Command.Grammar
import Esmify.Command.Basic
import Esmify.Command.Dialogue
import Esmify.Main
import Esmify.Proofs.Lexeme
import Esmify.Proofs.Scan
import Esmify.Proofs.Weave
import Esmify.Proofs.RequireLine
import Esmify.Proofs.Bindings
import Esmify.Proofs.RequireStatement
import Esmify.Proofs.ImportPass
import Esmify.Proofs.ImportText
import Esmify.Proofs.DeclinedLine
import Esmify.Proofs.ConvertedText
import Esmify.Proofs.ImportStable
import Esmify.Proofs.Exported
import Esmify.Proofs.ImportSpan
import Esmify.Proofs.KeptPart
import Esmify.Proofs.PassStep
import Esmify.Proofs.ReexportText
import Esmify.Proofs.Promotion
import Esmify.Proofs.Members
import Esmify.Proofs.Rendered
import Esmify.Proofs.GlobalPass
import Esmify.Proofs.GlobalMembers
import Esmify.Proofs.Uses
import Esmify.Proofs.InlineSource
import Esmify.Proofs.RequireGrammar
import Esmify.Proofs.RequireProgram
import Esmify.Proofs.Lines
import Esmify.Proofs.Region
import Esmify.Proofs.ExportOnly
import Esmify.Proofs.InlineLines
import Esmify.Proofs.InlineConversion
import Esmify.Proofs.DeclarationLines
import Esmify.Proofs.Marking
import Esmify.Proofs.InlinePass
import Esmify.Proofs.InlineFunction
import Esmify.Proofs.InlineTurn
import Esmify.Proofs.UsePass
import Esmify.Proofs.GlobalFault
import Esmify.Proofs.Failure
import Esmify.Proofs.InlineAccount
import Esmify.Proofs.ImportAgreement
import Esmify.Proofs.WholeReexport
import Esmify.Proofs.ReexportLines
import Esmify.Proofs.Parts
import Esmify.Proofs.BlockStep
import Esmify.Proofs.PrintedBlock
import Esmify.Proofs.BlockHeader
import Esmify.Proofs.BlockAgreement
import Esmify.Proofs.Balance
import Esmify.Proofs.BlockParser
import Esmify.Proofs.BlockInvariant
import Esmify.Proofs.ExportReading
import Esmify.Proofs.CodePlaces
import Esmify.Proofs.UsageDeletion
import Esmify.Proofs.WellFormed
import Esmify.Proofs.Pruning
import Esmify.Proofs.BatchAccount
import Esmify.Proofs.BatchRun
import Esmify.Proofs.DefaultExport
import Esmify.Proofs.InlinePlace
import Esmify.Proofs.MemberExport
import Esmify.Proofs.Trivia
import Esmify.Proofs.StatementStop
import Esmify.Proofs.FunctionEnd
import Esmify.Proofs.CommaChain
import Esmify.Proofs.EditOrder
import Esmify.Proofs.TopLevel
import Esmify.Proofs.PrintedLiteral
import Esmify.Proofs.Paragraphs
import Esmify.Proofs.Nesting
import Esmify.Proofs.Tokens
import Esmify.Proofs.StatementEnd
import Esmify.Proofs.TargetPath
import Esmify.Proofs.Leaps
import Esmify.Proofs.CodeRestart
