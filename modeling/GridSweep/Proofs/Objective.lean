import GridSweep.Objective
import GridSweep.Proofs.Json.Identity

/-!
What the key of an objective tells: its model, and under every name the canonical text of the value.
The order of the values does not count, the distributions neither. Between values that JSON libraries
hold the key tells the values themselves (`Objective.gridKey_eq_iff`), and being the same point is
having the same values but for the signs of zeros (`Objective.samePoint_iff`).
-/
namespace GridSweep

namespace Objective

theorem gridKey_inj {a b : Objective} :
    a.gridKey = b.gridKey ↔ a.model = b.model ∧
      ∀ name, (a.value? name).map Json.canonical = (b.value? name).map Json.canonical := by
  rw [gridKey, gridKey, Json.canonical_arr_inj, List.map_cons, List.map_singleton, List.map_cons,
    List.map_singleton, List.cons.injEq, List.cons.injEq, Json.canonical_str_inj,
    Json.canonical_ofEntries_inj id a.values b.values]
  exact and_congr_right fun _ => and_iff_left rfl

def HeldValues (o : Objective) : Prop := ∀ e ∈ o.values.entries, e.2.Held

variable {a b : Objective}

theorem HeldValues.value {name : String} {x : Json} (held : a.HeldValues)
    (h : a.value? name = some x) : x.Held :=
  held (name, x) (Entries.mem_of_find? h)

theorem gridKey_eq_iff (ha : a.HeldValues) (hb : b.HeldValues) :
    a.gridKey = b.gridKey ↔ a.model = b.model ∧ ∀ name, a.value? name = b.value? name := by
  rw [gridKey_inj]
  refine and_congr_right fun _ => forall_congr' fun name => ?_
  constructor
  · intro h
    cases hx : a.value? name with
    | none =>
      rw [hx, Option.map_none] at h
      exact (Option.map_eq_none_iff.mp h.symm).symm
    | some x =>
      rw [hx, Option.map_some] at h
      obtain ⟨y, hy, texts⟩ := Option.map_eq_some_iff.mp h.symm
      have normals := Json.canonical_inj.mp texts
      rw [(hb.value hy).normal, (ha.value hx).normal] at normals
      rw [hy, normals]
  · intro h
    rw [h]

theorem samePoint_iff (ha : a.HeldValues) (hb : b.HeldValues) :
    a.samePoint b = true ↔ a.model = b.model ∧
      ∀ name, (a.value? name).map Json.unsigned = (b.value? name).map Json.unsigned := by
  rw [samePoint, Bool.and_eq_true, beq_iff_eq]
  exact and_congr_right fun _ => Table.agrees_iff fun d hd e he =>
    Json.same_iff_unsigned (ha d hd).numbers (hb e he).numbers

theorem samePoint_of_gridKey (ha : a.HeldValues) (hb : b.HeldValues) (keys : a.gridKey = b.gridKey) :
    a.samePoint b = true := by
  obtain ⟨models, values⟩ := (gridKey_eq_iff ha hb).mp keys
  exact (samePoint_iff ha hb).mpr ⟨models, fun name => by rw [values name]⟩

/-- Where the values of one objective have no zeros, being the same point is having the same key. -/
theorem gridKey_of_samePoint (ha : a.HeldValues) (hb : b.HeldValues)
    (free : ∀ e ∈ b.values.entries, e.2.ZeroFree) (same : a.samePoint b = true) :
    a.gridKey = b.gridKey := by
  obtain ⟨models, images⟩ := (samePoint_iff ha hb).mp same
  refine (gridKey_eq_iff ha hb).mpr ⟨models, ?_⟩
  intro name
  have image := images name
  cases hy : b.value? name with
  | none =>
    rw [hy, Option.map_none, Option.map_eq_none_iff] at image
    exact image
  | some y =>
    rw [hy, Option.map_some] at image
    obtain ⟨x, hx, unsigned⟩ := Option.map_eq_some_iff.mp image
    have equal := (free (name, y) (Entries.mem_of_find? hy)).eq_of_unsigned unsigned
    rw [hx, equal]

theorem gridKey_of_perm (models : a.model = b.model)
    (values : a.values.entries.Perm b.values.entries) : a.gridKey = b.gridKey :=
  gridKey_inj.mpr ⟨models, fun name => by
    rw [value?, value?, Table.find?_of_perm values name]⟩

end Objective

end GridSweep
