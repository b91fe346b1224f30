import DiceNotation.Main
import DiceNotation.Roller.Script
import DiceNotation.Roller.Stepping
import DiceNotation.Proofs.Running
import DiceNotation.Proofs.Tree
import DiceNotation.Proofs.Tree.Evaluation
import DiceNotation.Proofs.Reading
import DiceNotation.Proofs.Operands
import DiceNotation.Proofs.Grammar
import DiceNotation.Proofs.Throwing
import DiceNotation.Proofs.Ceiling
import DiceNotation.Proofs.Replay
import DiceNotation.Proofs.Annotations
import DiceNotation.Proofs.Extents
import DiceNotation.Proofs.Extents.Sides
import DiceNotation.Proofs.Records
import DiceNotation.Proofs.Structure
import DiceNotation.Proofs.Binary64
import DiceNotation.Proofs.Finiteness
import DiceNotation.Proofs.Locality
import DiceNotation.Proofs.Shifting
import DiceNotation.Proofs.WrittenProduct
import DiceNotation.Proofs.Blame
import DiceNotation.Proofs.Meaning
import DiceNotation.Proofs.Reevaluation
import DiceNotation.Proofs.Scanning.Literals
import DiceNotation.Proofs.Scanning.Runs
import DiceNotation.Proofs.Scanning.Patterns
import DiceNotation.Proofs.Scanning.Spans
import DiceNotation.Proofs.Scanning
import DiceNotation.Proofs.Scanning.Words
import DiceNotation.Proofs.Spelling
import DiceNotation.Proofs.Tree.Exact
import DiceNotation.Proofs.Tree.Grammar
import DiceNotation.Proofs.Powers
import DiceNotation.Proofs.Refusal
import DiceNotation.Proofs.OneDie
import DiceNotation.Roller.Sampler
import DiceNotation.Proofs.Quantities
import DiceNotation.Proofs.Shapes
import DiceNotation.Proofs.Descent
import DiceNotation.Proofs.Descent.Reading
import DiceNotation.Proofs.Nesting
import DiceNotation.Proofs.Causes
import DiceNotation.Proofs.Binary64.Nearest
import DiceNotation.Proofs.Shortest
import DiceNotation.Proofs.Normalizing
import DiceNotation.Proofs.Writing
import DiceNotation.Proofs.RoundTrip
import DiceNotation.Proofs.Binary64.Order
import DiceNotation.Proofs.Normalizing.Order
import DiceNotation.Proofs.Rendering
import DiceNotation.Proofs.Session
import DiceNotation.Proofs.Evaluator
import DiceNotation.Proofs.Evaluator.Calls
import DiceNotation.Proofs.Evaluator.Coherence
import DiceNotation.Proofs.Evaluator.Simulation
import DiceNotation.Proofs.Descent.Log
import DiceNotation.Proofs.Evaluator.Agreement
import DiceNotation.Proofs.Evaluator.Folding
import DiceNotation.Proofs.Equality
