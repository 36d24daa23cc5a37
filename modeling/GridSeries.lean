import GridSeries.Files
import GridSeries.Mapping.Change
import GridSeries.Mapping.Report
import GridSeries.Statistics.Engine
import GridSeries.Proofs.Mapping.Run
import GridSeries.Proofs.Mapping.Integrity
import GridSeries.Proofs.Chunk.Pieces
import GridSeries.Proofs.Chunk.Partition
import GridSeries.Proofs.Chunk.Window
import GridSeries.Proofs.Json.Scan
import GridSeries.Proofs.Json.RoundTrip
import GridSeries.Proofs.Json.Number
import GridSeries.Proofs.Json.Normal
import GridSeries.Proofs.Document.Entries
import GridSeries.Proofs.Formula.Acyclic
import GridSeries.Proofs.Mapping.Sound
import GridSeries.Proofs.Document.Sections
import GridSeries.Proofs.Document.RoundTrip
import GridSeries.Proofs.Mapping.Log
import GridSeries.Proofs.Document.Formulas
import GridSeries.Proofs.Document.Directions
import GridSeries.Proofs.Evaluation
import GridSeries.Proofs.Statistics.Check
import GridSeries.Proofs.Evaluation.Rules
import GridSeries.Proofs.Evaluation.Pointwise
import GridSeries.Proofs.Mapping.Exclusion
import GridSeries.Proofs.Mapping.Order
import GridSeries.Proofs.Store.Reading
import GridSeries.Proofs.Store.Validation
import GridSeries.Proofs.Selection.WellFormed
import GridSeries.Proofs.Mapping.Unmapped
import GridSeries.Proofs.Chunk.Records
import GridSeries.Proofs.Chunk.Workers
import GridSeries.Proofs.Interval.Arrange
import GridSeries.Proofs.Selection.Completion
import GridSeries.Proofs.Mapping.UsedNames
import GridSeries.Proofs.Chunk.Lookup
import GridSeries.Proofs.Chunk.Overflow
import GridSeries.Proofs.Formula.Search
import GridSeries.Proofs.Sharing.Distribute
import GridSeries.Proofs.Mapping.Consistency
import GridSeries.Proofs.Mapping.Counts
import GridSeries.Proofs.Mapping.Report
import GridSeries.Proofs.Refusal
import GridSeries.Proofs.Mapping.Declare
import GridSeries.Proofs.Variable.Registry
import GridSeries.Proofs.Key.Json
import GridSeries.Proofs.Statistics.Summary
import GridSeries.Proofs.Statistics.Median
import GridSeries.Proofs.Store.Sampling
