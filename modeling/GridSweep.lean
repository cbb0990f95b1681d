import GridSweep.Main
import GridSweep.Grid.Cursor
import GridSweep.Proofs.Checkpoint.Isolation
import GridSweep.Proofs.Checkpoint.Order
import GridSweep.Proofs.Results.Covering
import GridSweep.Proofs.Results.Representation
import GridSweep.Proofs.Sweep.Accounting
import GridSweep.Proofs.Sweep.Recognition
import GridSweep.Proofs.Sweep.Resume
import GridSweep.Proofs.Config.Numbering
import GridSweep.Proofs.Config.Fingerprint
import GridSweep.Proofs.Sweep.Loss
import GridSweep.Proofs.Sweep.Interval
import GridSweep.Proofs.Decode.Failing
import GridSweep.Proofs.Decode.Given
import GridSweep.Proofs.Command.Plan
import GridSweep.Proofs.Json.Rereading
import GridSweep.Proofs.Checkpoint.Rereading
import GridSweep.Proofs.Sweep.Restoring
import GridSweep.Proofs.Sweep.Trace
import GridSweep.Proofs.Grid.Iteration
import GridSweep.Proofs.Grid.Repetition
import GridSweep.Proofs.Grid.Locality
import GridSweep.Proofs.Results.Ranking
import GridSweep.Proofs.Sweep.Skipping
import GridSweep.Proofs.Sweep.Completeness
import GridSweep.Proofs.Number.Rounding
import GridSweep.Proofs.Number.Digits
import GridSweep.Proofs.Number.Reading
import GridSweep.Proofs.Checkpoint.Drift
import GridSweep.Proofs.Json.Grammar
import GridSweep.Proofs.Json.Acceptance
import GridSweep.Proofs.Json.Parsing
import GridSweep.Proofs.Checkpoint.Accepting
import GridSweep.Proofs.Domain.Declaring
import GridSweep.Proofs.Json.Canonical
import GridSweep.Proofs.Results.Roundtrip
import GridSweep.Proofs.Config.Decoding
import GridSweep.Proofs.Report
import GridSweep.Proofs.Config.Building
import GridSweep.Proofs.Sweep.Measuring
