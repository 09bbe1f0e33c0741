import EnumCodec.CommandLine
import EnumCodec.Constant.Bits
import EnumCodec.Constant.Entry
import EnumCodec.Constant.Evaluation
import EnumCodec.Constant.IntKind
import EnumCodec.Constant.Order
import EnumCodec.Constant.Problem
import EnumCodec.Constant.References
import EnumCodec.Constant.Resolution
import EnumCodec.Constant.ValueTable
import EnumCodec.Failure
import EnumCodec.FileTree
import EnumCodec.FileTree.Overlay
import EnumCodec.FileTree.Workspace
import EnumCodec.Generation
import EnumCodec.Host
import EnumCodec.Host.Rehearsal
import EnumCodec.Json
import EnumCodec.Literal.Integer
import EnumCodec.Main
import EnumCodec.Package
import EnumCodec.Path
import EnumCodec.Position
import EnumCodec.Proofs.Agreement
import EnumCodec.Proofs.Assignment
import EnumCodec.Proofs.Bitwise
import EnumCodec.Proofs.DeclaredConstants
import EnumCodec.Proofs.DepthFirst
import EnumCodec.Proofs.EvaluationOrder
import EnumCodec.Proofs.ExactValue
import EnumCodec.Proofs.FolderPaths
import EnumCodec.Proofs.GeneratedText
import EnumCodec.Proofs.HandedFiles
import EnumCodec.Proofs.LiteralNumber
import EnumCodec.Proofs.OutputPaths
import EnumCodec.Proofs.PackageFiles
import EnumCodec.Proofs.PrintedText
import EnumCodec.Proofs.PrintedWords
import EnumCodec.Proofs.References
import EnumCodec.Proofs.Runs
import EnumCodec.Proofs.ScannedNames
import EnumCodec.Proofs.SecondRun
import EnumCodec.Proofs.SkippedParts
import EnumCodec.Proofs.SourceNames
import EnumCodec.Proofs.Spelling
import EnumCodec.Proofs.StatementEnds
import EnumCodec.Proofs.TextLayout
import EnumCodec.Proofs.TreeChanges
import EnumCodec.Proofs.TreePaths
import EnumCodec.Proofs.TreeRuns
import EnumCodec.Proofs.Word
import EnumCodec.Proofs.WordEvaluation
import EnumCodec.Proofs.WordRun
import EnumCodec.Request
import EnumCodec.Settings
import EnumCodec.Settings.Toml
import EnumCodec.Summary
import EnumCodec.Syntax
import EnumCodec.Syntax.Cursor
import EnumCodec.Syntax.Declaration
import EnumCodec.Syntax.Expression
import EnumCodec.Syntax.File
import EnumCodec.Syntax.Printer
import EnumCodec.Syntax.Problem
import EnumCodec.Template
import EnumCodec.Text.Alphabetic
import EnumCodec.Text.Blank
import EnumCodec.Text.CodeRange
import EnumCodec.Text.Hex
import EnumCodec.Text.LowerCase
import EnumCodec.Text.Numeric
import EnumCodec.Text.Pieces
import EnumCodec.Text.Printable
import EnumCodec.Token
import EnumCodec.Token.Error
import EnumCodec.Token.Gap
import EnumCodec.Token.Lexeme
import EnumCodec.Token.Scanner
import EnumCodec.Proofs.ByteOrder
import EnumCodec.Proofs.CollectedValues
import EnumCodec.Proofs.BracketDepth
import EnumCodec.Proofs.ExpressionGrammar
import EnumCodec.Proofs.DeclarationGrammar
import EnumCodec.Proofs.FileGrammar
import EnumCodec.Proofs.ExpressionTokens
import EnumCodec.Proofs.DeclarationTokens
import EnumCodec.Proofs.FileParts
import EnumCodec.Proofs.NumberText
import EnumCodec.Proofs.ReadBack
import EnumCodec.Proofs.PrintedExpressions
import EnumCodec.Proofs.PrintedConstants
import EnumCodec.Proofs.KindRange
import EnumCodec.Proofs.AppendedConstants
import EnumCodec.Proofs.NamePlaces
import EnumCodec.Proofs.LoadedPackages
import EnumCodec.Proofs.Redeclarations
import EnumCodec.Proofs.Lines
import EnumCodec.Proofs.BuildConstraints
import EnumCodec.Proofs.SourceReads
import EnumCodec.Proofs.IdleEntries
import EnumCodec.Proofs.CarriageReturns
import EnumCodec.Proofs.SameReading
import EnumCodec.Proofs.NamesAndValues
import EnumCodec.Proofs.TypeChains
import EnumCodec.Proofs.RegularGroups
import EnumCodec.Proofs.MapLiterals
import EnumCodec.Proofs.LiteralGrammar
import EnumCodec.Proofs.FittingValues
import EnumCodec.Proofs.MixedOperands
import EnumCodec.Proofs.QuotedText
import EnumCodec.Proofs.LooseLiterals
import EnumCodec.Proofs.SkippedDeclarations
import EnumCodec.Proofs.DeclaredTypes
import EnumCodec.Proofs.TypeLists
import EnumCodec.Proofs.Questions
import EnumCodec.Proofs.ReferenceClosure
