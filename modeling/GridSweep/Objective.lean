import GridSweep.Domain.Parameter

/-!
Objectives: one resolved configuration of a model. The grid point of an objective is its model with
its values; the distributions it carries along do not count.
-/
namespace GridSweep

structure Objective where
  model : String
  values : Table Json
  distributions : Table Distribution

namespace Objective

instance : Inhabited Objective := ⟨⟨"", .empty, .empty⟩⟩

def value? (o : Objective) (name : String) : Option Json := o.values.find? name

def withDistribution (o : Objective) (name : String) (d : Distribution) : Objective :=
  { o with distributions := o.distributions.insert name d }

/-- The canonical text of model and values. -/
def gridKey (o : Objective) : String :=
  (Json.arr [.str o.model, .ofEntries id o.values.entries]).canonical

def samePoint (a b : Objective) : Bool := a.model == b.model && a.values.agrees Json.same b.values

/-- Equality, the order of values and distributions aside. -/
def same (a b : Objective) : Bool :=
  a.samePoint b && a.distributions.agrees Distribution.same b.distributions

def encodeValues (o : Objective) : Json := .ofEntries id o.values.entries

def encodeDistributions (o : Objective) : Json :=
  .ofEntries Distribution.encode o.distributions.entries

/-- Distributions are left out when there are none. -/
def encode (o : Objective) : Json :=
  .obj ([("model_name", .str o.model), ("values", o.encodeValues)] ++
    if o.distributions.isEmpty then [] else [("distributions", o.encodeDistributions)])

open Decode in
def record :=
  ((Record.field (.needed "model_name" text)).and
    ((Record.field (.needed "values" (table value))).and
      (Record.field (.defaulted "distributions" (table Distribution.decoder) .empty)))).map
    fun (model, values, distributions) => Objective.mk model values distributions

def decoder : Decode.Decoder Objective := record.decoder "struct Objective"

end Objective

end GridSweep
