import GridSweep.Results.Basic
import GridSweep.Proofs.Objective

namespace GridSweep

namespace ResultSet

theorem contains_iff {s : ResultSet} {model : String} {o : Objective} :
    s.contains model o = true ↔
      ∃ r ∈ s.records, r.model = model ∧ r.objective.gridKey = o.gridKey := by
  simp [contains_eq_any, RunRecord.point]

end ResultSet

namespace Objective

/-- The key tells the model and the values, not their order and not the distributions. Objectives of
one key are the same point, so a point that is found among results has a record of it. -/
theorem gridKey_faithful (a b : Objective) (ha : a.HeldValues) (hb : b.HeldValues) :
    (a.gridKey = b.gridKey → a.samePoint b = true) ∧
    (a.gridKey = b.gridKey ↔ a.model = b.model ∧ a.values.entries.Perm b.values.entries) ∧
    ∀ (s : ResultSet) (model : String), (∀ r ∈ s.records, r.objective.HeldValues) →
      s.contains model a = true →
        ∃ r ∈ s.records, r.model = model ∧ r.objective.samePoint a = true := by
  refine ⟨samePoint_of_gridKey ha hb, ?_, ?_⟩
  · constructor
    · intro keys
      obtain ⟨models, values⟩ := (gridKey_eq_iff ha hb).mp keys
      exact ⟨models, Table.perm_of_find? values⟩
    · intro ⟨models, values⟩
      exact gridKey_of_perm models values
  · intro s model held found
    obtain ⟨r, hr, named, keys⟩ := ResultSet.contains_iff.mp found
    exact ⟨r, hr, named, samePoint_of_gridKey (held r hr) ha keys⟩

/-- A point of awkward names and values: quotes, brackets and a line break, and an object nested in a
list beside a floating-point number. -/
def awkward : Objective where
  model := "m\",[\"m"
  values := .ofList [("a\n", .arr [.num (.float .one), .obj [("]", .null), ("\x7b", .ofInt (-1))]]),
    ("\"a\n\"", .str "\\\"")]
  distributions := .empty

/-- The awkward point with its values the other way round and a distribution. -/
def awkwardTurned : Objective where
  model := "m\",[\"m"
  values := .ofList [("\"a\n\"", .str "\\\""),
    ("a\n", .arr [.num (.float .one), .obj [("]", .null), ("\x7b", .ofInt (-1))]])]
  distributions := .ofList [("d", ⟨.zero, .one⟩)]

theorem perm_awkwardTurned : awkward.values.entries.Perm awkwardTurned.values.entries := by
  exact .swap _ _ _

theorem held_awkward : awkward.HeldValues := by
  intro e he
  change e ∈ [_, _] at he
  rcases List.mem_pair.mp he with rfl | rfl
  · refine ⟨rfl, ?_⟩
    intro n hn
    change n ∈ [Number.float .one, .int (-1)] at hn
    rcases List.mem_pair.mp hn with rfl | rfl
    · exact (by decide +kernel : Double.one.isFinite = true)
    · exact ⟨by decide, by decide⟩
  · refine ⟨rfl, ?_⟩
    intro n hn
    cases hn

theorem gridKey_faithful_awkward :
    awkward.gridKey = awkwardTurned.gridKey ∧ awkward.samePoint awkwardTurned = true := by
  have held : awkwardTurned.HeldValues := fun e he =>
    held_awkward e (perm_awkwardTurned.mem_iff.mpr he)
  obtain ⟨points, keys, _⟩ := gridKey_faithful awkward awkwardTurned held_awkward held
  have equal := keys.mpr ⟨rfl, perm_awkwardTurned⟩
  exact ⟨equal, points equal⟩

end Objective

end GridSweep
