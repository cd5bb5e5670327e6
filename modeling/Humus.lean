import Humus.Dispatch.Troupe
import Humus.Workbench.Bench
import Humus.Main
import Humus.Proofs.Peg.Correspondence
import Humus.Proofs.Peg.Source
import Humus.Proofs.Dispatch.Thread
import Humus.Proofs.Peg.Chart
import Humus.Proofs.Peg.Telling
import Humus.Proofs.Peg.Soundness
import Humus.Proofs.Peg.Completeness
import Humus.Proofs.Peg.Adequacy
import Humus.Proofs.Peg.Walk
import Humus.Proofs.Peg.Reference
import Humus.Proofs.Peg.Collecting
import Humus.Proofs.Peg.Building
import Humus.Proofs.Peg.SingleThread
import Humus.Proofs.Peg.Layering
import Humus.Proofs.Peg.Shapes
import Humus.Proofs.Dispatch.Fuel
import Humus.Proofs.Peg.Termination
import Humus.Proofs.Peg.Totality
import Humus.Proofs.Reduction
import Humus.Proofs.Token.Shapes
import Humus.Proofs.Tree.Shapes
import Humus.Proofs.Tree.Totality
import Humus.Proofs.Token.Reading
import Humus.Proofs.Tree.LexicalErrors
import Humus.Proofs.Peg.Scanning
import Humus.Proofs.Token.Lexemes
import Humus.Proofs.Token.Partition
import Humus.Proofs.Peg.Strand
import Humus.Proofs.Peg.Lasting
import Humus.Proofs.Peg.Answering
import Humus.Proofs.Peg.Ledger
import Humus.Proofs.Peg.Moving
import Humus.Proofs.Dispatch.Idle
import Humus.Proofs.Peg.Family
import Humus.Proofs.Peg.Concurrent
import Humus.Proofs.Peg.Diaries
import Humus.Proofs.Peg.Memoizing
import Humus.Proofs.Peg.Limit
import Humus.Proofs.Peg.Recursion
import Humus.Proofs.Peg.Invocations
import Humus.Proofs.Peg.Stalls
import Humus.Proofs.Token.Agreement
import Humus.Proofs.Tree.RoundTrip
import Humus.Proofs.Tree.Factoring
import Humus.Proofs.Dispatch.Unseen
import Humus.Proofs.Peg.Pending
import Humus.Proofs.Peg.Aborting
import Humus.Proofs.Behavior.Lowering
import Humus.Proofs.Behavior.Within
import Humus.Proofs.Behavior.Scopes
import Humus.Proofs.Behavior.Raising
import Humus.Proofs.Text.Json
import Humus.Proofs.Tree.Document
import Humus.Proofs.Behavior.Document
import Humus.Proofs.Command.Phase
import Humus.Proofs.Source.Lines
import Humus.Proofs.Diagnostic.Report
import Humus.Proofs.Token.Texts
import Humus.Proofs.Diagnostic.Places
import Humus.Proofs.Dispatch.Record
import Humus.Proofs.Peg.Registry
import Humus.Proofs.Peg.Order
import Humus.Proofs.Peg.Choices
import Humus.Proofs.Peg.Anchors
import Humus.Proofs.Peg.Repetitions
import Humus.Proofs.Peg.Restarting
import Humus.Proofs.Tree.Entries
import Humus.Proofs.Tree.Branches
import Humus.Proofs.Tree.Expansion
import Humus.Proofs.Token.Value
import Humus.Proofs.Token.Spelling
import Humus.Proofs.Behavior.Numbers
import Humus.Proofs.Tree.Limit
import Humus.Proofs.Text.Flattening
import Humus.Proofs.Peg.Expectations
import Humus.Proofs.Token.Numerals
