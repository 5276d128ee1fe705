import CommandLine.Description
import CommandLine.Diagnostic.Reader
import CommandLine.Main
import CommandLine.Proofs.AddressBookLines
import CommandLine.Proofs.LexicalGrammar
import CommandLine.Proofs.QuoteParity
import CommandLine.Proofs.Stages
import CommandLine.Proofs.ViablePrefix
import CommandLine.Proofs.Acceptance
import CommandLine.Proofs.Blanks
import CommandLine.Proofs.ByteScanner
import CommandLine.Proofs.Quoting
import CommandLine.Proofs.Culprit
import CommandLine.Proofs.Subcommands
import CommandLine.Proofs.Extraction
import CommandLine.Proofs.JsonStrings
import CommandLine.Proofs.JsonNumbers
import CommandLine.Proofs.JsonReading
import CommandLine.Proofs.JsonPrinting
import CommandLine.Proofs.JsonRecords
import CommandLine.Proofs.Settings
import CommandLine.Proofs.DiagnosticRoundTrip
import CommandLine.Proofs.Concatenation
import CommandLine.Proofs.ErrorTrail
import CommandLine.Proofs.NodeSpans
import CommandLine.Proofs.Narrowing
import CommandLine.Proofs.Strictness
import CommandLine.Proofs.FullKeywords
import CommandLine.Proofs.TableOrder
import CommandLine.Proofs.Abbreviations
import CommandLine.Proofs.ArgumentsKept
import CommandLine.Proofs.UnknownOptions
import CommandLine.Proofs.Carets
import CommandLine.Proofs.JsonUniqueness
import CommandLine.Proofs.FailureObject
import CommandLine.Proofs.IndexLimits
import CommandLine.Proofs.FirstLine
import CommandLine.Proofs.Progress
import CommandLine.Proofs.SpanOrder
