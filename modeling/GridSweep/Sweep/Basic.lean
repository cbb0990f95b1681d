import GridSweep.Checkpoint.Store
import GridSweep.Grid.Objectives

namespace GridSweep

/-- What becomes of an objective whose measurement failed: it is left out and tried again another
time, or it is recorded as failed. -/
inductive FailurePolicy where
  | skip
  | record
  deriving DecidableEq

namespace FailurePolicy

def encode : FailurePolicy → Json
  | skip => .str "skip"
  | record => .str "record"

open Decode in
def decoder : Decoder FailurePolicy :=
  enumeration ["skip", "record"] (.bare fun name => if name = "skip" then skip else record)

end FailurePolicy

namespace Sweep

structure Options where
  /-- Discard a checkpoint that is there first. -/
  clean : Bool
  /-- Save after this many new records; zero saves only at the end. -/
  interval : Nat
  policy : FailurePolicy
  /-- How many measurements to try at most. -/
  limit : Option Nat
  deriving DecidableEq

def Options.ofConfig (c : Config) : Options := ⟨false, c.checkpoint.interval, .skip, none⟩

structure Outcome where
  measured : Nat
  /-- Objectives that had a record before. -/
  skipped : Nat
  failed : Nat
  /-- Objectives that the limit left out. -/
  remaining : Nat
  results : ResultSet

def Outcome.isComplete (o : Outcome) : Bool := o.remaining == 0 && o.failed == 0

/-- Measures one objective under the name of its run. It may see the files and keep a memory. -/
abbrev Measurer (μ : Type) :=
  String → Objective → Files.Tree → μ → Except SweepError RunRecord × μ

/-- The metric of a record that stands for a failed measurement. -/
def failedMetric : String := "failed"

def failedRecord (name : String) (o : Objective) : RunRecord :=
  .of name o (SortedTable.empty.insert failedMetric .one)

def contractError (name : String) (o : Objective) (r : RunRecord) : SweepError :=
  .measurement (.of "measure-contract" "measurement returned a record for a different objective"
    [("run", name), ("expected_model", o.model), ("returned_model", r.model),
      ("expected_point", o.gridKey), ("returned_point", r.objective.gridKey)])

def metricError (name metric value : String) : SweepError :=
  .measurement (.of "measure-metric" "metric is not a finite number"
    [("run", name), ("metric", metric), ("value", value)])

def answers (o : Objective) (r : RunRecord) : Bool :=
  r.model == o.model && r.objective.samePoint o

def badMetric? (r : RunRecord) : Option (String × Double) :=
  r.metrics.entries.find? fun m => !m.2.isFinite

end Sweep

end GridSweep
