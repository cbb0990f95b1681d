import GridSweep.Config.Declaration
import GridSweep.Results.Constraint

namespace GridSweep

/-- Where checkpoints are kept, and after how many new records one is saved; zero saves only at the
end. -/
structure CheckpointSettings where
  directory : String
  interval : Nat
  deriving DecidableEq

namespace CheckpointSettings

def standard : CheckpointSettings := ⟨"checkpoints", 1⟩

def encode (s : CheckpointSettings) : Json :=
  .obj [("directory", .str s.directory), ("interval", .ofNat s.interval)]

open Decode in
def record :=
  ((Record.field (.defaulted "directory" (textAs "path string") standard.directory)).and
    (Record.field (.defaulted "interval" (natural .usize) standard.interval))).map
    fun (directory, interval) => CheckpointSettings.mk directory interval

def decoder : Decode.Decoder CheckpointSettings := record.decoder "struct CheckpointSettings"

end CheckpointSettings

structure SweepFile where
  name : Option String
  checkpoint : CheckpointSettings
  constraints : List MetricConstraint
  models : List ModelDecl

namespace SweepFile

def encode (f : SweepFile) : Json :=
  .obj [("name", .ofOption .str f.name), ("checkpoint", f.checkpoint.encode),
    ("constraints", .arr (f.constraints.map MetricConstraint.encode)),
    ("models", .arr (f.models.map ModelDecl.encode))]

open Decode in
def record :=
  ((Record.field (.free "name" text)).and
    ((Record.field (.defaulted "checkpoint" CheckpointSettings.decoder .standard)).and
      ((Record.field (.defaulted "constraints" (list MetricConstraint.decoder) [])).and
        (Record.field (.needed "models" (list ModelDecl.decoder)))))).map
    fun (name, checkpoint, constraints, models) =>
      SweepFile.mk name checkpoint constraints models

def decoder : Decode.Decoder SweepFile := record.decoder "struct SweepFile"

end SweepFile

end GridSweep
