import Monkey.Arrangement
import Monkey.Builtin
import Monkey.Datum
import Monkey.Eval.Operation
import Monkey.Eval.Outcome
import Monkey.Eval.Program
import Monkey.EvalError
import Monkey.HashKey
import Monkey.Integer
import Monkey.Main
import Monkey.Operator
import Monkey.ParseError
import Monkey.Program
import Monkey.Program.Equality
import Monkey.Program.Outline
import Monkey.Program.Parse
import Monkey.Program.Read
import Monkey.Program.Render
import Monkey.Prompt
import Monkey.Reading
import Monkey.Script
import Monkey.Session
import Monkey.Source
import Monkey.Table
import Monkey.Text.Blank
import Monkey.Text.Escaped
import Monkey.Text.Quoted
import Monkey.Token
import Monkey.Token.Listing
import Monkey.Token.Scan
import Monkey.Transcript
import Monkey.Value
import Monkey.Value.Equality
import Monkey.Value.Outline
import Monkey.Value.Render
import Monkey.World
import Monkey.Proofs.Grammar
import Monkey.Proofs.Success
import Monkey.Proofs.Derivation
import Monkey.Proofs.Recognition
import Monkey.Proofs.Partition
import Monkey.Proofs.Rendering
import Monkey.Proofs.Seams
import Monkey.Proofs.RoundTrip
import Monkey.Proofs.Failure
import Monkey.Proofs.Beginning
import Monkey.Proofs.Agreement
import Monkey.Proofs.Nesting
import Monkey.Proofs.Recovery
import Monkey.Proofs.Pieces
import Monkey.Proofs.Juncture
import Monkey.Proofs.Successor
import Monkey.Proofs.Completion
import Monkey.Proofs.Viability
import Monkey.Proofs.Occurrence
import Monkey.Proofs.Congruence
import Monkey.Proofs.Depth
import Monkey.Proofs.Effect
import Monkey.Proofs.Frame
import Monkey.Proofs.Renaming
import Monkey.Proofs.Correspondence
import Monkey.Proofs.Simulation
import Monkey.Proofs.Confinement
import Monkey.Proofs.Provenance
import Monkey.Proofs.Host
import Monkey.Proofs.Embedding
import Monkey.Proofs.Interference
import Monkey.Proofs.Mention
import Monkey.Proofs.Sequence
import Monkey.Proofs.Composition
import Monkey.Proofs.Interruption
import Monkey.Proofs.Dialogue
import Monkey.Proofs.Naming
import Monkey.Proofs.Arithmetic
import Monkey.Proofs.History
import Monkey.Proofs.Moment
import Monkey.Proofs.Comparison
import Monkey.Proofs.Mapping
import Monkey.Proofs.Diagnosis
import Monkey.Proofs.Tables
import Monkey.Proofs.Literal
import Monkey.Proofs.Order
import Monkey.Proofs.Likeness
import Monkey.Proofs.Visibility
import Monkey.Proofs.Loosening
import Monkey.Proofs.Course
import Monkey.Proofs.Tally
import Monkey.Proofs.Functionless
