import GridSweep.Domain.Basic

/-!
Parameters as a configuration file declares them: a shape chosen by a `type` member, the fields of
that shape beside it, and the name of the parameter among them.
-/
namespace GridSweep

inductive ParameterSpec where
  | fixed (value : Json)
  | categorical (values : List Json)
  | linear (min max step : Int64)
  | exponential (min max : Nat)
  | distribution (mean stddev : Double)

namespace ParameterSpec

/-- The parameter that a declaration stands for; ranges are written out. -/
def toKind : ParameterSpec → Except Domain.Fault ParameterKind
  | fixed value => .ok (.fixed value)
  | categorical values => .ok (.categorical values)
  | linear min max step => ParameterKind.linear min max step
  | exponential min max => ParameterKind.exponential min max
  | distribution mean stddev => .ok (.distribution ⟨mean, stddev⟩)

def members : ParameterSpec → List (String × Json)
  | fixed value => [("type", .str "fixed"), ("value", value)]
  | categorical values => [("type", .str "categorical"), ("values", .arr values)]
  | linear min max step =>
    [("type", .str "linear"), ("min", .ofInt min.toInt), ("max", .ofInt max.toInt),
      ("step", .ofInt step.toInt)]
  | exponential min max =>
    [("type", .str "exponential"), ("min", .ofNat min), ("max", .ofNat max)]
  | distribution mean stddev =>
    [("type", .str "distribution"), ("mean", .ofDouble mean), ("stddev", .ofDouble stddev)]

def encode (s : ParameterSpec) : Json := .obj s.members

open Decode

def fixedRecord := (Record.field (.needed "value" value)).map ParameterSpec.fixed

def categoricalRecord := (Record.field (.needed "values" (list value))).map categorical

/-- The step is one unless it is given. -/
def linearRecord :=
  ((Record.field (.needed "min" (integer .i64))).and
    ((Record.field (.needed "max" (integer .i64))).and
      (Record.field (.defaulted "step" (integer .i64) 1)))).map
    fun (min, max, step) => linear min max step

def exponentialRecord :=
  ((Record.field (.needed "min" (natural .u32))).and
    (Record.field (.needed "max" (natural .u32)))).map
    fun (min, max) => exponential min max

/-- The spread is zero unless it is given. -/
def distributionRecord :=
  ((Record.field (.needed "mean" double)).and
    (Record.field (.defaulted "stddev" double .zero))).map
    fun (mean, stddev) => distribution mean stddev

def shapes : List String := ["fixed", "categorical", "linear", "exponential", "distribution"]

def fields (shape : String) : Decoder ParameterSpec :=
  if shape = "fixed" then fixedRecord.decoder "struct variant ParameterSpec::Fixed"
  else if shape = "categorical" then
    categoricalRecord.decoder "struct variant ParameterSpec::Categorical"
  else if shape = "linear" then linearRecord.decoder "struct variant ParameterSpec::Linear"
  else if shape = "exponential" then
    exponentialRecord.decoder "struct variant ParameterSpec::Exponential"
  else distributionRecord.decoder "struct variant ParameterSpec::Distribution"

def decoder : Decoder ParameterSpec :=
  internallyTagged "internally tagged enum ParameterSpec" "type" shapes fields

end ParameterSpec

structure ParameterDecl where
  name : String
  spec : ParameterSpec

namespace ParameterDecl

def encode (d : ParameterDecl) : Json := .obj (("name", .str d.name) :: d.spec.members)

open Decode

/-- Members seen so far: the name, and the others set aside in reverse. -/
structure Seen where
  name : Option String
  others : List (Node × Node)

def collect (c : Context) : List (Node × Node) → Seen → Read Seen
  | [], seen => return seen
  | (k, n) :: rest, seen => do
    let key ← textAs "field identifier" c k
    if key = "name" then
      if seen.name.isSome then throw (.duplicateField "name")
      else collect c rest { seen with name := some (← text c n) }
    else
      let n ← aside c n
      collect c rest { seen with others := (.str key, n) :: seen.others }

/-- The name stands among the members of the shape, so only an object will do. -/
def decoder : Decoder ParameterDecl := fun c => behind fun n =>
  match n.body with
  | .map members => do
    let seen ← collect (← c.enter) members ⟨none, []⟩
    match seen.name with
    | none => throw (.missingField "name")
    | some name => return ⟨name, ← ParameterSpec.decoder c.setAside (.map seen.others.reverse)⟩
  | n => throw (mismatch "struct ParameterDecl" n)

end ParameterDecl

structure ModelDecl where
  name : String
  parameters : List ParameterDecl

namespace ModelDecl

def encode (d : ModelDecl) : Json :=
  .obj [("name", .str d.name), ("parameters", .arr (d.parameters.map ParameterDecl.encode))]

open Decode in
def record :=
  ((Record.field (.needed "name" text)).and
    (Record.field (.defaulted "parameters" (list ParameterDecl.decoder) []))).map
    fun (name, parameters) => ModelDecl.mk name parameters

def decoder : Decode.Decoder ModelDecl := record.decoder "struct ModelDecl"

end ModelDecl

end GridSweep
