import GridSweep.Domain.Basic
import GridSweep.Objective

namespace GridSweep

abbrev Axis := String × List Json

structure Plane where
  model : String
  axes : List Axis
  distributions : Table Distribution

namespace Plane

def axis? : String × ParameterKind → Option Axis
  | (name, .fixed value) => some (name, [value])
  | (name, .categorical values) => some (name, values)
  | (_, .distribution _) => none

def distribution? : String × ParameterKind → Option (String × Distribution)
  | (name, .distribution d) => some (name, d)
  | _ => none

def ofParameters (model : String) (parameters : Parameters) : Plane where
  model
  axes := parameters.entries.filterMap axis?
  distributions := .ofList (parameters.entries.filterMap distribution?)

/-- All choices of one candidate on each axis, the last axis varying fastest. -/
def combinations : List Axis → List (List (String × Json))
  | [] => [[]]
  | (name, candidates) :: rest =>
    candidates.flatMap fun value => (combinations rest).map ((name, value) :: ·)

def objectiveAt (p : Plane) (values : List (String × Json)) : Objective :=
  ⟨p.model, .ofList values, p.distributions⟩

def objectives (p : Plane) : List Objective := (combinations p.axes).map p.objectiveAt

end Plane

def runName (model : String) (index : Nat) : String := model ++ "_run_" ++ toString index

namespace Domain

def planes (d : Domain) : List Plane := d.models.entries.map fun m => .ofParameters m.1 m.2

def objectives (d : Domain) : List Objective := d.planes.flatMap Plane.objectives

def namedOf (p : Plane) : List (String × Objective) :=
  p.objectives.mapIdx fun i o => (runName p.model i, o)

/-- The objectives of the domain in order, with the names of their runs. -/
def named (d : Domain) : List (String × Objective) := d.planes.flatMap namedOf

end Domain

end GridSweep
