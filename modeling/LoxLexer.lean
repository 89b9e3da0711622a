import LoxLexer.Text.Utf8
import LoxLexer.Text.Width
import LoxLexer.Number.Binary64
import LoxLexer.Number.Shortest
import LoxLexer.Keyword
import LoxLexer.Token
import LoxLexer.Value
import LoxLexer.Diagnostic
import LoxLexer.LineTable
import LoxLexer.Segment
import LoxLexer.Scan
import LoxLexer.FileTable
import LoxLexer.Report
import LoxLexer.Console
import LoxLexer.FileStore
import LoxLexer.Session
import LoxLexer.CommandLine
import LoxLexer.Expr
import LoxLexer.Expr.Printer
import LoxLexer.Expr.Assembly
import LoxLexer.Main
import LoxLexer.Proofs.Grammar
import LoxLexer.Proofs.MaximalMunch
import LoxLexer.Proofs.Decoding
import LoxLexer.Proofs.Lines
import LoxLexer.Proofs.StoredFiles
import LoxLexer.Proofs.Streams
import LoxLexer.Proofs.ReportLines
import LoxLexer.Proofs.Faults
import LoxLexer.Proofs.LineNumbers
import LoxLexer.Proofs.LineStarts
import LoxLexer.Proofs.Independence
import LoxLexer.Proofs.Isolation
import LoxLexer.Proofs.Dialogue
import LoxLexer.Proofs.Composition
import LoxLexer.Proofs.Lexemes
import LoxLexer.Proofs.Dump
import LoxLexer.Proofs.Agreement
import LoxLexer.Proofs.Lookahead
import LoxLexer.Proofs.Blanking
import LoxLexer.Proofs.FileHistory
import LoxLexer.Proofs.Styles
import LoxLexer.Proofs.Slices
import LoxLexer.Proofs.Rounding
import LoxLexer.Proofs.Numerals
import LoxLexer.Proofs.LineRanges
import LoxLexer.Proofs.FileNumbers
import LoxLexer.Proofs.Locations
import LoxLexer.Proofs.Rescanning
import LoxLexer.Proofs.Printing
import LoxLexer.Proofs.PrefixNotation
import LoxLexer.Proofs.Equality
