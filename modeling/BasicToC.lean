import BasicToC.CommandLine.Options
import BasicToC.CommandLine.Run
import BasicToC.Compile
import BasicToC.Diagnostic
import BasicToC.Files.Delivery
import BasicToC.Files.Path
import BasicToC.Files.System
import BasicToC.Files.Tree
import BasicToC.Grammar
import BasicToC.Kind
import BasicToC.Lexeme
import BasicToC.Log
import BasicToC.Machine
import BasicToC.Main
import BasicToC.Numeral
import BasicToC.Output
import BasicToC.Position
import BasicToC.Problem
import BasicToC.Program
import BasicToC.Proofs.Acceptance
import BasicToC.Proofs.Bookkeeping
import BasicToC.Proofs.CReading
import BasicToC.Proofs.CommandRuns
import BasicToC.Proofs.Comparisons
import BasicToC.Proofs.Completion
import BasicToC.Proofs.Concatenation
import BasicToC.Proofs.ConditionsInC
import BasicToC.Proofs.Decoding
import BasicToC.Proofs.Delivery
import BasicToC.Proofs.Derivation
import BasicToC.Proofs.DiagnosticTexts
import BasicToC.Proofs.ExpressionsInC
import BasicToC.Proofs.Formulas
import BasicToC.Proofs.Layout
import BasicToC.Proofs.LexedNumerals
import BasicToC.Proofs.LineBreaks
import BasicToC.Proofs.LongestMatch
import BasicToC.Proofs.MissingLabels
import BasicToC.Proofs.Naming
import BasicToC.Proofs.NumeralValues
import BasicToC.Proofs.Numerals
import BasicToC.Proofs.Partition
import BasicToC.Proofs.Paths
import BasicToC.Proofs.PrintedText
import BasicToC.Proofs.Reader
import BasicToC.Proofs.Reading
import BasicToC.Proofs.ReadingLines
import BasicToC.Proofs.ReadingPrograms
import BasicToC.Proofs.RepeatedDelivery
import BasicToC.Proofs.RepeatedLabels
import BasicToC.Proofs.RoundTrip
import BasicToC.Proofs.Scenes
import BasicToC.Proofs.Sessions
import BasicToC.Proofs.Spelling
import BasicToC.Proofs.Stopping
import BasicToC.Proofs.Streaming
import BasicToC.Proofs.TokensPulled
import BasicToC.Proofs.Translation
import BasicToC.Proofs.TreeWords
import BasicToC.Proofs.Unambiguity
import BasicToC.Proofs.ValidPrefix
import BasicToC.Proofs.Vocabulary
import BasicToC.ReservedName
import BasicToC.Scope
import BasicToC.Text.CodeRange
import BasicToC.Text.Combining
import BasicToC.Text.Invisible
import BasicToC.Text.Order
import BasicToC.Text.Quoted
import BasicToC.Text.Unassigned
import BasicToC.Token
import BasicToC.TokenStream
import BasicToC.Word
