import GridSweep.Results.Record

namespace GridSweep

structure MetricConstraint where
  metric : String
  min : Option Double
  max : Option Double

namespace MetricConstraint

def atMost (metric : String) (bound : Double) : MetricConstraint := ⟨metric, none, some bound⟩
def atLeast (metric : String) (bound : Double) : MetricConstraint := ⟨metric, some bound, none⟩

def holds (c : MetricConstraint) (r : RunRecord) : Bool :=
  match r.metric? c.metric with
  | none => false
  | some x => c.min.all (·.le x) && c.max.all x.le

def encode (c : MetricConstraint) : Json :=
  .obj ([("metric", .str c.metric)] ++ Json.ifAny "min" .ofDouble c.min ++
    Json.ifAny "max" .ofDouble c.max)

open Decode in
def record :=
  ((Record.field (.needed "metric" text)).and
    ((Record.field (.free "min" double)).and (Record.field (.free "max" double)))).map
    fun (metric, min, max) => MetricConstraint.mk metric min max

def decoder : Decode.Decoder MetricConstraint := record.decoder "struct MetricConstraint"

end MetricConstraint

end GridSweep
