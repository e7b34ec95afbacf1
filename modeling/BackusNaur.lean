import BackusNaur.CommandLine.Run
import BackusNaur.Files.Reading
import BackusNaur.Grammar
import BackusNaur.Log
import BackusNaur.Main
import BackusNaur.Report
import BackusNaur.Settings.Load
import BackusNaur.Sources
import BackusNaur.Proofs.Matching.Bound
import BackusNaur.Proofs.Matching.Adequacy
import BackusNaur.Proofs.Matching.Result
import BackusNaur.Proofs.Matching.Chain
import BackusNaur.Proofs.Matching.Refinement
import BackusNaur.Proofs.Matching.ParseTree
import BackusNaur.Proofs.Matching.Soundness
import BackusNaur.Proofs.Matching.Completeness
import BackusNaur.Proofs.Reading.Lexing
import BackusNaur.Proofs.Reading.Printing
import BackusNaur.Proofs.Reading.Parsing
import BackusNaur.Proofs.Reading.RoundTrip
import BackusNaur.Proofs.Reading.Syntax
import BackusNaur.Proofs.Reading.Acceptance
import BackusNaur.Proofs.Reading.SyntaxFaults
import BackusNaur.Proofs.Reading.Joining
import BackusNaur.Proofs.Reading.Locating
import BackusNaur.Proofs.Reading.Rows
import BackusNaur.Proofs.Reading.Blanks
import BackusNaur.Proofs.Reading.Bars
import BackusNaur.Proofs.Reading.LineBreaks
import BackusNaur.Proofs.Matching.Suffix
import BackusNaur.Proofs.Matching.LeftCalls
import BackusNaur.Proofs.Matching.Eager
import BackusNaur.Proofs.Reading.SourceLines
import BackusNaur.Proofs.Reading.Faults
import BackusNaur.Proofs.Reading.Headers
import BackusNaur.Proofs.Matching.Alternatives
import BackusNaur.Proofs.Matching.Erasure
import BackusNaur.Proofs.Matching.Transfer
import BackusNaur.Proofs.Matching.Reachable
import BackusNaur.Proofs.Matching.Need
import BackusNaur.Proofs.Matching.Lookups
import BackusNaur.Proofs.Matching.LetterCase
import BackusNaur.Proofs.Matching.Groups
import BackusNaur.Proofs.Reading.Reordering
import BackusNaur.Proofs.Reading.TokenShape
import BackusNaur.Proofs.Reading.Chunks
import BackusNaur.Proofs.Reading.Brackets
import BackusNaur.Proofs.Reading.Soundness
import BackusNaur.Proofs.Matching.Reports
import BackusNaur.Proofs.Loading.Files
import BackusNaur.Proofs.Loading.Settings
import BackusNaur.Proofs.Loading.Escapes
import BackusNaur.Proofs.Document.Scalars
import BackusNaur.Proofs.Document.Json
import BackusNaur.Proofs.Running.Steps
import BackusNaur.Proofs.Running.Depth
import BackusNaur.Proofs.Running.Reporting
