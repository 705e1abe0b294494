import TypedRecords.Builder
import TypedRecords.Columnar.Batch
import TypedRecords.Record.Diagnostic
import TypedRecords.Record.Read
import TypedRecords.Schema.Outline
import TypedRecords.Proofs.NameMap
import TypedRecords.Proofs.Props
import TypedRecords.Proofs.Props.Merging
import TypedRecords.Proofs.Props.Equality
import TypedRecords.Proofs.Floating.Rank
import TypedRecords.Proofs.Floating.Rounding
import TypedRecords.Proofs.Floating.Truncation
import TypedRecords.Proofs.Floating.DoubleRounding
import TypedRecords.Proofs.Floating.Widening
import TypedRecords.Proofs.Decimal.Numeral
import TypedRecords.Proofs.Decimal.Rounding
import TypedRecords.Proofs.Decimal.Shortest
import TypedRecords.Proofs.Decimal.Layout
import TypedRecords.Proofs.Coercion.Narrowing
import TypedRecords.Proofs.Coercion.IntegerTexts
import TypedRecords.Proofs.Coercion.FloatingTexts
import TypedRecords.Proofs.Calendar.Date
import TypedRecords.Proofs.Calendar.Instant
import TypedRecords.Proofs.Calendar.Rfc3339
import TypedRecords.Proofs.Calendar.Rendering
import TypedRecords.Proofs.Coercion.InstantTexts
import TypedRecords.Proofs.Text.Utf8
import TypedRecords.Proofs.Coercion.ScalarTexts
import TypedRecords.Proofs.Schema.Lookup
import TypedRecords.Proofs.Schema.Distinct
import TypedRecords.Proofs.Schema.Nesting
import TypedRecords.Proofs.Schema.Equality
import TypedRecords.Proofs.Schema.Freezing
import TypedRecords.Proofs.Value.Equality
import TypedRecords.Proofs.Builder.Collapse
import TypedRecords.Proofs.Builder.LastWins
import TypedRecords.Proofs.Builder.Step
import TypedRecords.Proofs.Builder.Soundness
import TypedRecords.Proofs.Builder.History
import TypedRecords.Proofs.Builder.Refusal
import TypedRecords.Proofs.Builder.Settled
import TypedRecords.Proofs.Builder.Resolution
import TypedRecords.Proofs.Builder.Replay
import TypedRecords.Proofs.Builder.Verdict
import TypedRecords.Proofs.Builder.Instants
import TypedRecords.Proofs.Builder.Reachable
import TypedRecords.Proofs.Builder.Naming
import TypedRecords.Proofs.Builder.Required
import TypedRecords.Proofs.Builder.NullPolicy
import TypedRecords.Proofs.Builder.Normal
import TypedRecords.Proofs.Builder.Typing
import TypedRecords.Proofs.Builder.InstantInputs
import TypedRecords.Proofs.Builder.NamedWrites
import TypedRecords.Proofs.Builder.NullPaths
import TypedRecords.Proofs.Schema.Congruence
import TypedRecords.Proofs.Schema.Outline
import TypedRecords.Proofs.Record.Read
import TypedRecords.Proofs.Record.TemporalReads
import TypedRecords.Proofs.Record.InstantReads
import TypedRecords.Proofs.Record.CoercedReads
import TypedRecords.Proofs.Record.Diagnostic
import TypedRecords.Proofs.Columnar.Layout
import TypedRecords.Proofs.Columnar.Conformance
import TypedRecords.Proofs.Columnar.WellFormed
import TypedRecords.Proofs.Columnar.Decoding
import TypedRecords.Proofs.Columnar.Filling
import TypedRecords.Proofs.Columnar.Demands
import TypedRecords.Proofs.Columnar.OwnSchema
import TypedRecords.Proofs.Columnar.Described
import TypedRecords.Proofs.Columnar.Skeleton
import TypedRecords.Proofs.Columnar.Mapping
