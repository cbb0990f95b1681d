import GridSweep.Grid.Count
import GridSweep.Grid.Objectives

/-!
Walking the grid one objective at a time without listing it. A cursor holds the models still to
visit, the candidates chosen next on the axes of the first of them, and how many objectives remain.
-/
namespace GridSweep

structure Cursor where
  planes : List Plane
  odometer : List Nat
  remaining : Nat

namespace Cursor

def zeros : List Plane → List Nat
  | [] => []
  | p :: _ => p.axes.map fun _ => 0

def ofDomain (d : Domain) : Cursor := ⟨d.planes, zeros d.planes, d.count⟩

def chosen : List Axis → List Nat → List (String × Json)
  | (name, candidates) :: axes, i :: odometer =>
    (name, candidates.getD i .null) :: chosen axes odometer
  | _, _ => []

/-- The next choice, the last axis first; none after the last one. -/
def advance : List Axis → List Nat → Option (List Nat)
  | (_, candidates) :: axes, i :: odometer =>
    match advance axes odometer with
    | some next => some (i :: next)
    | none => if i + 1 < candidates.length then some ((i + 1) :: odometer.map fun _ => 0) else none
  | _, _ => none

def after (c : Cursor) : Cursor :=
  match c.planes with
  | [] => c
  | p :: rest => match advance p.axes c.odometer with
    | some odometer => ⟨p :: rest, odometer, c.remaining - 1⟩
    | none => ⟨rest, zeros rest, c.remaining - 1⟩

def next? (c : Cursor) : Option (Objective × Cursor) :=
  match c.planes with
  | [] => none
  | p :: _ => some (p.objectiveAt (chosen p.axes c.odometer), c.after)

def take : Nat → Cursor → List Objective × Cursor
  | 0, c => ([], c)
  | n + 1, c => match c.next? with
    | none => ([], c)
    | some (o, c) =>
      let (rest, c) := take n c
      (o :: rest, c)

def drop : Nat → Cursor → Cursor
  | 0, c => c
  | n + 1, c => if c.planes.isEmpty then c else drop n c.after

end Cursor

structure NamedCursor where
  cursor : Cursor
  /-- The model of the last objective. -/
  model : Option String
  index : Nat

namespace NamedCursor

def ofDomain (d : Domain) : NamedCursor := ⟨.ofDomain d, none, 0⟩

def indexFor (c : NamedCursor) (model : String) : Nat := if c.model = some model then c.index else 0

def after (c : NamedCursor) : NamedCursor :=
  match c.cursor.planes with
  | [] => c
  | p :: _ => ⟨c.cursor.after, some p.model, c.indexFor p.model + 1⟩

def next? (c : NamedCursor) : Option ((String × Objective) × NamedCursor) :=
  c.cursor.next?.map fun (o, _) => ((runName o.model (c.indexFor o.model), o), c.after)

def take : Nat → NamedCursor → List (String × Objective) × NamedCursor
  | 0, c => ([], c)
  | n + 1, c => match c.next? with
    | none => ([], c)
    | some (o, c) =>
      let (rest, c) := take n c
      (o :: rest, c)

def drop : Nat → NamedCursor → NamedCursor
  | 0, c => c
  | n + 1, c => if c.cursor.planes.isEmpty then c else drop n c.after

end NamedCursor

end GridSweep
