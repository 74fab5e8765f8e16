import ScriptEngine.Main
import ScriptEngine.Proofs.Number.Words
import ScriptEngine.Proofs.Number.NumberText
import ScriptEngine.Proofs.Object.Change
import ScriptEngine.Proofs.Object.AnyLength
import ScriptEngine.Proofs.Object.Shrinking
import ScriptEngine.Proofs.Evaluation.ArrayRuns
import ScriptEngine.Proofs.Evaluation.DefinePaths
import ScriptEngine.Proofs.Evaluation.Installation
import ScriptEngine.Proofs.Evaluation.Nesting
import ScriptEngine.Proofs.Jumps.Agreement
import ScriptEngine.Proofs.Jumps.Confinement
import ScriptEngine.Proofs.Jumps.ReadExpression
import ScriptEngine.Proofs.Jumps.ReadStatement
import ScriptEngine.Proofs.Jumps.Targets
import ScriptEngine.Proofs.Environment.Binding
import ScriptEngine.Proofs.Evaluation.BindingHistory
import ScriptEngine.Proofs.Evaluation.Interruption
import ScriptEngine.Proofs.Environment.Declaring
import ScriptEngine.Proofs.Environment.Lifetime
import ScriptEngine.Proofs.Environment.Inside
import ScriptEngine.Proofs.Environment.Scope
import ScriptEngine.Proofs.Environment.Iterations
import ScriptEngine.Proofs.Environment.Instantiation
import ScriptEngine.Proofs.Environment.FirstValues
import ScriptEngine.Proofs.Environment.GlobalNames
import ScriptEngine.Proofs.Evaluation.Refusal
import ScriptEngine.Proofs.Evaluation.ScriptValue
import ScriptEngine.Proofs.Scanning.Layout
import ScriptEngine.Proofs.Reading.Totality
import ScriptEngine.Proofs.Hoisting.Accepted
import ScriptEngine.Proofs.Strictness.Accepted
import ScriptEngine.Proofs.Printing.Writable
import ScriptEngine.Proofs.Inheritance.Lineage
import ScriptEngine.Proofs.Inheritance.Loops
import ScriptEngine.Proofs.Inheritance.Keys
import ScriptEngine.Proofs.Inheritance.Finite
import ScriptEngine.Proofs.Inheritance.Changing
import ScriptEngine.Proofs.Evaluation.Writing
import ScriptEngine.Proofs.Evaluation.Wrapping
import ScriptEngine.Proofs.Evaluation.Freezing
import ScriptEngine.Proofs.Object.KeyOrder
import ScriptEngine.Proofs.Environment.Entrance
import ScriptEngine.Proofs.Inheritance.BoundLayers
import ScriptEngine.Proofs.Evaluation.BoundFunctions
import ScriptEngine.Proofs.Evaluation.Describing
import ScriptEngine.Proofs.Scanning.StringLiterals
import ScriptEngine.Proofs.Scanning.NumberTokens
import ScriptEngine.Proofs.Spans.Accepted
import ScriptEngine.Proofs.Excerpts.Functions
import ScriptEngine.Proofs.Excerpts.MadeFunctions
import ScriptEngine.Proofs.Text.Alignment
import ScriptEngine.Proofs.Library.Templates
import ScriptEngine.Proofs.Library.TextSearch
import ScriptEngine.Proofs.Evaluation.LooseEquality
import ScriptEngine.Proofs.Library.Splitting
import ScriptEngine.Proofs.Number.FixedPlaces
import ScriptEngine.Proofs.Evaluation.Order
import ScriptEngine.Proofs.Isolation.Library
import ScriptEngine.Proofs.Library.ArrayEnds
import ScriptEngine.Proofs.Library.ArrayCopies
import ScriptEngine.Proofs.Library.IndexNames
