import MonkeySyntax.CommandLine.Invocation
import MonkeySyntax.Main
import MonkeySyntax.Parser.Request
import MonkeySyntax.Scanner.Request
import MonkeySyntax.Tree.Sameness
import MonkeySyntax.Proofs.Spelling.Soundness
import MonkeySyntax.Proofs.Spelling.Completeness
import MonkeySyntax.Proofs.Blocks
import MonkeySyntax.Proofs.BrokenStatement
import MonkeySyntax.Proofs.RoundTrip
import MonkeySyntax.Proofs.FirstDiagnostic
import MonkeySyntax.Proofs.Formatting
import MonkeySyntax.Proofs.Separation
import MonkeySyntax.Proofs.WellFormed
import MonkeySyntax.Proofs.Window
import MonkeySyntax.Proofs.DiagnosticOrder
import MonkeySyntax.Proofs.Whereabouts
import MonkeySyntax.Proofs.LineByLine
import MonkeySyntax.Proofs.ExitStatus
import MonkeySyntax.Proofs.SameTree
import MonkeySyntax.Proofs.WrittenNumbers
import MonkeySyntax.Proofs.LineEnds
import MonkeySyntax.Proofs.TokenListing
import MonkeySyntax.Proofs.Skipping
