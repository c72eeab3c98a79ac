import LineGrammar.Main
import LineGrammar.Proofs.Grammar
import LineGrammar.Proofs.Decoding
import LineGrammar.Proofs.Pieces
import LineGrammar.Proofs.Streaming
import LineGrammar.Proofs.Merging
import LineGrammar.Proofs.Limits
import LineGrammar.Proofs.Dispatch
import LineGrammar.Proofs.Diagnoses
import LineGrammar.Proofs.Encoding
import LineGrammar.Proofs.InvalidLines
import LineGrammar.Proofs.Progress
import LineGrammar.Proofs.Completion
import LineGrammar.Proofs.Rendering
import LineGrammar.Proofs.Rechecking
import LineGrammar.Proofs.Tallies
import LineGrammar.Proofs.LogLines
import LineGrammar.Proofs.Logging
import LineGrammar.Proofs.Arguments
import LineGrammar.Proofs.Invocations
import LineGrammar.Proofs.Composition
import LineGrammar.Proofs.Expressions
import LineGrammar.Proofs.Judgements
import LineGrammar.Proofs.Spelling
import LineGrammar.Proofs.EndMarks
import LineGrammar.Proofs.Coverage
import LineGrammar.Proofs.Spans
import LineGrammar.Proofs.Slices
import LineGrammar.Proofs.LineEndings
import LineGrammar.Proofs.Naming
import LineGrammar.Proofs.Exhaustion
import LineGrammar.Proofs.Identifiers
