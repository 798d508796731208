import Quarterly.Batch
import Quarterly.Calendar.Moment
import Quarterly.Command.Arguments
import Quarterly.Command.Basic
import Quarterly.Command.Transcript
import Quarterly.Configuration
import Quarterly.ConfigurationFile
import Quarterly.Datum.Basic
import Quarterly.Datum.Merge
import Quarterly.Datum.Plain
import Quarterly.Evaluator
import Quarterly.Formula.Criteria
import Quarterly.Formula.Evaluation
import Quarterly.Formula.Fault
import Quarterly.Formula.Journal
import Quarterly.Formula.Library
import Quarterly.Formula.Library.Array
import Quarterly.Formula.Library.Basic
import Quarterly.Formula.Library.Conditional
import Quarterly.Formula.Library.Logical
import Quarterly.Formula.Library.Math
import Quarterly.Formula.Library.Text
import Quarterly.Formula.Mention
import Quarterly.Formula.Operator
import Quarterly.Formula.Plain
import Quarterly.Formula.Substituted
import Quarterly.Formula.Token
import Quarterly.Formula.Validation
import Quarterly.Formula.Value
import Quarterly.Formula.Written
import Quarterly.Json.Reader
import Quarterly.Json.Writer
import Quarterly.Keyed
import Quarterly.Main
import Quarterly.Metric.Name
import Quarterly.Metric.Reading
import Quarterly.Metric.Table
import Quarterly.Number.Basic
import Quarterly.Number.Binary64
import Quarterly.Number.Column
import Quarterly.Number.Elementary
import Quarterly.Number.Numeral
import Quarterly.Number.Shortest
import Quarterly.Number.Written
import Quarterly.Path
import Quarterly.Proofs.Batch.Companies
import Quarterly.Proofs.Batch.Isolation
import Quarterly.Proofs.Batch.Refinement
import Quarterly.Proofs.Configuration
import Quarterly.Proofs.Datum.Equality
import Quarterly.Proofs.Datum.Merge
import Quarterly.Proofs.Formula.Acceptance
import Quarterly.Proofs.Formula.Account
import Quarterly.Proofs.Formula.Agreement
import Quarterly.Proofs.Formula.Application
import Quarterly.Proofs.Formula.Arity
import Quarterly.Proofs.Formula.BigStep
import Quarterly.Proofs.Formula.Bodies
import Quarterly.Proofs.Formula.Bracket
import Quarterly.Proofs.Formula.Check
import Quarterly.Proofs.Formula.Coverage
import Quarterly.Proofs.Formula.Criteria
import Quarterly.Proofs.Formula.Cursor
import Quarterly.Proofs.Formula.Decision
import Quarterly.Proofs.Formula.Derivation
import Quarterly.Proofs.Formula.Discipline
import Quarterly.Proofs.Formula.Eager
import Quarterly.Proofs.Formula.Equality
import Quarterly.Proofs.Formula.Exact
import Quarterly.Proofs.Formula.Extraction
import Quarterly.Proofs.Formula.Faithfulness
import Quarterly.Proofs.Formula.Family
import Quarterly.Proofs.Formula.FaultingCalls
import Quarterly.Proofs.Formula.Finite
import Quarterly.Proofs.Formula.Grammar
import Quarterly.Proofs.Formula.Grouped
import Quarterly.Proofs.Formula.Guarded
import Quarterly.Proofs.Formula.Invariant
import Quarterly.Proofs.Formula.Journaled
import Quarterly.Proofs.Formula.Layout
import Quarterly.Proofs.Formula.LetForms
import Quarterly.Proofs.Formula.LetNesting
import Quarterly.Proofs.Formula.Lexemes
import Quarterly.Proofs.Formula.Likeness
import Quarterly.Proofs.Formula.Limit
import Quarterly.Proofs.Formula.Lockstep
import Quarterly.Proofs.Formula.Logic
import Quarterly.Proofs.Formula.Lookup
import Quarterly.Proofs.Formula.Mentions
import Quarterly.Proofs.Formula.Nesting
import Quarterly.Proofs.Formula.NumericFaults
import Quarterly.Proofs.Formula.Observation
import Quarterly.Proofs.Formula.OnePass
import Quarterly.Proofs.Formula.Overflow
import Quarterly.Proofs.Formula.Overlooked
import Quarterly.Proofs.Formula.PairLogic
import Quarterly.Proofs.Formula.Placed
import Quarterly.Proofs.Formula.Provenance
import Quarterly.Proofs.Formula.Relevance
import Quarterly.Proofs.Formula.Relocation
import Quarterly.Proofs.Formula.Renaming
import Quarterly.Proofs.Formula.Rendering
import Quarterly.Proofs.Formula.Replacing
import Quarterly.Proofs.Formula.Rules
import Quarterly.Proofs.Formula.Run
import Quarterly.Proofs.Formula.Segments
import Quarterly.Proofs.Formula.Simulation
import Quarterly.Proofs.Formula.Skipping
import Quarterly.Proofs.Formula.Sound
import Quarterly.Proofs.Formula.Spans
import Quarterly.Proofs.Formula.Stretches
import Quarterly.Proofs.Formula.Surviving
import Quarterly.Proofs.Formula.Tree
import Quarterly.Proofs.Formula.Uncalled
import Quarterly.Proofs.Formula.Unmeasured
import Quarterly.Proofs.Formula.Validity
import Quarterly.Proofs.Formula.View
import Quarterly.Proofs.Formula.Wording
import Quarterly.Proofs.Keyed
import Quarterly.Proofs.Metric.Building
import Quarterly.Proofs.Metric.Indexing
import Quarterly.Proofs.Metric.Reading
import Quarterly.Proofs.Metric.Scan
import Quarterly.Proofs.Metric.Selection
import Quarterly.Proofs.Metric.Spelling
import Quarterly.Proofs.Number.Column
import Quarterly.Proofs.Number.Difference
import Quarterly.Proofs.Number.Double
import Quarterly.Proofs.Number.Finite
import Quarterly.Proofs.Number.Integral
import Quarterly.Proofs.Number.Order
import Quarterly.Proofs.Number.Oversized
import Quarterly.Proofs.Number.Range
import Quarterly.Proofs.Number.Representable
import Quarterly.Proofs.Number.Written
import Quarterly.Proofs.Quarter.Order
import Quarterly.Proofs.Schema.Check
import Quarterly.Proofs.Signal
import Quarterly.Proofs.Text.Lowercase
import Quarterly.Quarter.Label
import Quarterly.Quarter.Order
import Quarterly.Record
import Quarterly.RecordFile
import Quarterly.Schema.Check
import Quarterly.Schema.Issue
import Quarterly.Schema.Moment
import Quarterly.Settings
import Quarterly.Sheet.Basic
import Quarterly.Sheet.Delimited
import Quarterly.Sheet.Objects
import Quarterly.Signal
import Quarterly.Storage
import Quarterly.Text.Blank
import Quarterly.Text.Digit
import Quarterly.Text.Lowercase
import Quarterly.Text.Quoted
import Quarterly.Text.Visible
import Quarterly.Yaml.Cursor
import Quarterly.Yaml.Reader
import Quarterly.Yaml.Scalar
import Quarterly.Yaml.ScalarText
import Quarterly.Yaml.Writer
