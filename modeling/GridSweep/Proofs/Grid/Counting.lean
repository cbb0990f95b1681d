import GridSweep.Grid.Count
import GridSweep.Proofs.Grid.Sequence
import Mathlib.Algebra.GroupWithZero.Nat

namespace GridSweep

namespace Count

theorem mul_min (a b : Nat) : mul (min a limit) b = min (a * b) limit := by
  rcases Nat.le_total a limit with below | above
  · rw [Nat.min_eq_left below, mul]
  · rw [Nat.min_eq_right above, mul]
    rcases Nat.eq_zero_or_pos b with rfl | positive
    · simp
    · have reached : limit ≤ limit * b := Nat.le_mul_of_pos_right limit positive
      have more : limit * b ≤ a * b := Nat.mul_le_mul_right b above
      rw [Nat.min_eq_right reached, Nat.min_eq_right (Nat.le_trans reached more)]

theorem add_min (a b : Nat) : add (min a limit) (min b limit) = min (a + b) limit := by
  unfold add
  omega

theorem foldl_mul (l : List Nat) (a : Nat) :
    l.foldl mul (min a limit) = min (a * l.prod) limit := by
  induction l generalizing a with
  | nil => simp
  | cons b rest ih => rw [List.foldl_cons, mul_min, ih, List.prod_cons, Nat.mul_assoc]

theorem foldl_add (l : List Nat) (a : Nat) :
    (l.map (min · limit)).foldl add (min a limit) = min (a + l.sum) limit := by
  induction l generalizing a with
  | nil => simp
  | cons b rest ih =>
    rw [List.map_cons, List.foldl_cons, add_min, ih, List.sum_cons, Nat.add_assoc]

end Count

theorem Parameters.count_eq (p : Parameters) : p.count = min (product p.grid) Count.limit := by
  have axes : p.values.filter ParameterKind.isGrid = p.grid.map Prod.snd := by
    rw [Table.values, List.filter_map]
    rfl
  have counted := Count.foldl_mul (p.grid.map (·.2.cardinality)) 1
  rw [Nat.one_mul] at counted
  rw [count, axes, List.map_map]
  exact counted

namespace Domain

theorem objectives_named (d : Domain) : d.named.map Prod.snd = d.objectives := by
  rw [named, objectives, List.map_flatMap]
  refine congrArg (d.planes.flatMap ·) (funext fun p => ?_)
  exact List.ext_getElem (by simp [namedOf]) fun i h h' => by simp [namedOf]

def total (d : Domain) : Nat := (d.models.values.map fun p => Parameters.product p.grid).sum

theorem length_objectives (d : Domain) : d.objectives.length = d.total := by
  rw [objectives, List.length_flatMap, planes, List.map_map, total, Table.values, List.map_map]
  refine congrArg List.sum (List.map_congr_left fun m _ => ?_)
  exact Plane.length_objectives m.1 m.2

theorem length_named (d : Domain) : d.named.length = d.total := by
  rw [← length_objectives, ← objectives_named, List.length_map]

theorem count_eq (d : Domain) : d.count = min d.objectives.length Count.limit := by
  have each : d.models.values.map Parameters.count =
      (d.models.values.map fun p => Parameters.product p.grid).map (min · Count.limit) := by
    rw [List.map_map]
    exact List.map_congr_left fun p _ => p.count_eq
  have counted := Count.foldl_add (d.models.values.map fun p => Parameters.product p.grid) 0
  rw [Nat.zero_add, ← each] at counted
  rw [length_objectives]
  exact counted

end Domain

end GridSweep
