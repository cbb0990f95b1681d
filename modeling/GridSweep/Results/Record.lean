import GridSweep.Objective

namespace GridSweep

structure RunRecord where
  name : String
  model : String
  objective : Objective
  metrics : SortedTable Double

namespace RunRecord

def of (name : String) (objective : Objective) (metrics : SortedTable Double) : RunRecord :=
  ⟨name, objective.model, objective, metrics⟩

def withMetric (r : RunRecord) (name : String) (value : Double) : RunRecord :=
  { r with metrics := r.metrics.insert name value }

def metric? (r : RunRecord) (name : String) : Option Double := r.metrics.find? name

/-- The grid point that the record covers under its model's name. -/
def point (r : RunRecord) : String × String := (r.model, r.objective.gridKey)

def sameMetrics : List (String × Double) → List (String × Double) → Bool
  | [], [] => true
  | (a, x) :: rest, (b, y) :: others => a == b && x.same y && sameMetrics rest others
  | _, _ => false

def same (a b : RunRecord) : Bool :=
  a.name == b.name && a.model == b.model && a.objective.same b.objective &&
    sameMetrics a.metrics.entries b.metrics.entries

def encode (r : RunRecord) : Json :=
  .obj [("name", .str r.name), ("model_name", .str r.model), ("objective", r.objective.encode),
    ("metrics", .ofEntries .ofDouble r.metrics.entries)]

open Decode in
def record :=
  ((Record.field (.needed "name" text)).and
    ((Record.field (.needed "model_name" text)).and
      ((Record.field (.needed "objective" Objective.decoder)).and
        (Record.field (.needed "metrics" (sortedTable double)))))).map
    fun (name, model, objective, metrics) => RunRecord.mk name model objective metrics

def decoder : Decode.Decoder RunRecord := record.decoder "struct RunRecord"

end RunRecord

end GridSweep
