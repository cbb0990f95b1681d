import GridSweep.Domain.Parameter
import GridSweep.Text.Blank

/-!
Search domains: models in order, each with its parameters in order. A declaration either is made in
full or leaves the domain as it was and names its fault.
-/
namespace GridSweep

abbrev Parameters := Table ParameterKind

structure Domain where
  models : Table Parameters

namespace Domain

inductive Fault where
  | blankModel
  | blankParameter (model : String)
  | emptyCategorical (model parameter : String)
  | unsoundDistribution (model parameter : String) (d : Distribution)
  | duplicateParameter (model parameter : String)
  | unknownModel (model : String)
  | emptyLinear (min max step : Int64)
  | emptyExponential (min max : Nat)

namespace Fault

def report : Fault → DomainError
  | blankModel => ⟨.invalidParameter, .of "domain-empty-model" "model name must not be empty" []⟩
  | blankParameter model =>
    ⟨.invalidParameter, .of "domain-empty-parameter" "parameter name must not be empty"
      [("model", model)]⟩
  | emptyCategorical model parameter =>
    ⟨.invalidParameter, .of "domain-empty-categorical" "categorical list is empty"
      [("model", model), ("parameter", parameter)]⟩
  | unsoundDistribution model parameter d =>
    ⟨.invalidParameter, .of "domain-invalid-distribution"
      "distribution needs a finite mean and a finite, non-negative spread"
      [("model", model), ("parameter", parameter), ("mean", d.mean.display),
        ("stddev", d.stddev.display)]⟩
  | duplicateParameter model parameter =>
    ⟨.invalidParameter, .of "domain-duplicate-parameter" "parameter already declared"
      [("model", model), ("parameter", parameter)]⟩
  | unknownModel model =>
    ⟨.unknownModel, .of "domain-unknown-model" "model was never declared" [("model", model)]⟩
  | emptyLinear min max step =>
    ⟨.invalidParameter, (Diagnostic.of "domain-linear-range" "linear range is empty"
      [("min", toString min.toInt), ("max", toString max.toInt),
        ("step", toString step.toInt)]).withHint
      "use min <= max and a positive step"⟩
  | emptyExponential min max =>
    ⟨.invalidParameter, (Diagnostic.of "domain-exponential-range" "exponential range is empty"
      [("min", toString min), ("max", toString max)]).withHint
      ("use min <= max <= " ++ toString Range.maxExponent)⟩

end Fault

end Domain

namespace ParameterKind

/-- The candidates `min`, `min + step`, and so on, as far as `max`. -/
def linear (min max step : Int64) : Except Domain.Fault ParameterKind :=
  if sound : 0 < step ∧ min ≤ max then
    .ok (.categorical ((Range.words max step sound.1 (some min)).map fun w => .ofInt w.toInt))
  else .error (.emptyLinear min max step)

def exponential (min max : Nat) : Except Domain.Fault ParameterKind :=
  if min ≤ max ∧ max ≤ Range.maxExponent then
    .ok (.categorical ((Range.powers min max).map .ofInt))
  else .error (.emptyExponential min max)

end ParameterKind

namespace Domain

def empty : Domain := ⟨.empty⟩

instance : Inhabited Domain := ⟨empty⟩

def checkKind (model parameter : String) : ParameterKind → Except Fault Unit
  | .categorical [] => .error (.emptyCategorical model parameter)
  | .distribution d =>
    if d.isSound then .ok () else .error (.unsoundDistribution model parameter d)
  | _ => .ok ()

def parameters? (d : Domain) (model : String) : Option Parameters := d.models.find? model

/-- Declares a model; nothing changes if it is there. -/
def addModel (d : Domain) (model : String) : Except Fault Domain :=
  if isBlankText model then .error .blankModel
  else if d.models.contains model then .ok d
  else .ok ⟨d.models.insert model .empty⟩

/-- Declares a parameter, and its model when that is new. -/
def addParameter (d : Domain) (model parameter : String) (kind : ParameterKind) :
    Except Fault Domain := do
  if isBlankText parameter then .error (.blankParameter model)
  checkKind model parameter kind
  let parameters := (d.parameters? model).getD .empty
  if parameters.contains parameter then .error (.duplicateParameter model parameter)
  if isBlankText model then .error .blankModel
  return ⟨d.models.insert model (parameters.insert parameter kind)⟩

def addParameters (d : Domain) (model : String) (parameters : List (String × ParameterKind)) :
    Except Fault Domain :=
  parameters.foldlM (fun d p => d.addParameter model p.1 p.2) d

def parametersFor (d : Domain) (model : String) : Except Fault Parameters :=
  match d.parameters? model with
  | some parameters => .ok parameters
  | none => .error (.unknownModel model)

def encodeParameters (p : Parameters) : Json := .ofEntries ParameterKind.encode p.entries

def encode (d : Domain) : Json :=
  .obj [("models", .ofEntries encodeParameters d.models.entries)]

end Domain

end GridSweep
