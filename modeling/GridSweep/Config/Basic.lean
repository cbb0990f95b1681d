import GridSweep.Config.File
import GridSweep.Files.Path
import GridSweep.Text.Slug

/-!
A validated configuration, the name it is known by, and its fingerprint: a digest of that name and
the domain, in which the order of declarations does not show.
-/
namespace GridSweep

structure Config where
  name : Option String
  checkpoint : CheckpointSettings
  constraints : List MetricConstraint
  domain : Domain

namespace Config

def ofDomain (name : Option String) (domain : Domain) (checkpoint : CheckpointSettings) : Config :=
  ⟨name, checkpoint, [], domain⟩

def declareParameter (model : String) (d : Domain) (p : ParameterDecl) :
    Except Domain.Fault Domain := do
  d.addParameter model p.name (← p.spec.toKind)

def declareModel (d : Domain) (m : ModelDecl) : Except Domain.Fault Domain := do
  m.parameters.foldlM (declareParameter m.name) (← d.addModel m.name)

def declareAll (models : List ModelDecl) : Except Domain.Fault Domain :=
  models.foldlM declareModel .empty

/-- The configuration of a file; its checkpoint directory is seen from `base`. -/
def ofFile (f : SweepFile) (base : String) : Except Domain.Fault Config := do
  let domain ← declareAll f.models
  let directory := Path.join base f.checkpoint.directory
  return ⟨f.name, { f.checkpoint with directory }, f.constraints, domain⟩

/-- The name that was given, without blanks at its ends; without one, the names of the models. -/
def identity (c : Config) : String :=
  let name := trimmed (c.name.getD "")
  if !name.isEmpty then name
  else if c.domain.models.isEmpty then "sweep"
  else String.intercalate "+" c.domain.models.names

def fileName (c : Config) : String := Slug.ofName c.identity ++ ".checkpoint.json"

def signature (c : Config) : Json :=
  .obj [("identity", .str c.identity), ("domain", c.domain.encode)]

def fingerprint (c : Config) : String := Sha256.hex c.signature.canonical

end Config

end GridSweep
