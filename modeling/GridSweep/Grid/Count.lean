import GridSweep.Domain.Basic

namespace GridSweep

namespace Count

def limit : Nat := 0xffffffffffffffff

def add (a b : Nat) : Nat := min (a + b) limit
def mul (a b : Nat) : Nat := min (a * b) limit

end Count

def Parameters.count (p : Parameters) : Nat :=
  ((p.values.filter ParameterKind.isGrid).map ParameterKind.cardinality).foldl Count.mul 1

namespace Domain

def countFor (d : Domain) (model : String) : Option Nat := (d.parameters? model).map Parameters.count

def count (d : Domain) : Nat := (d.models.values.map Parameters.count).foldl Count.add 0

end Domain

end GridSweep
