import GridSweep.Proofs.Checkpoint.RoundTrip
import GridSweep.Proofs.Results.Covering
import GridSweep.Proofs.Sweep.Visit

namespace GridSweep.Sweep

variable {μ : Type} {t : Task μ} {name : String} {o : Objective} {p : Progress μ} {r : RunRecord}

/-- The sweep accepts a record as the measurement of an objective at this point. -/
structure Accepts (t : Task μ) (name : String) (o : Objective) (p : Progress μ) (r : RunRecord) :
    Prop where
  unknown : p.results.contains o.model o = false
  within : t.options.limit.any (· ≤ p.attempts) = false
  good : judge name o (measure t p name o).1 = .good r
  fresh : r.name ∉ p.results.names

/-- From this point on the objective is on record: in the results of the sweep however it goes on, and
in what is restored from any checkpoint with such results that was saved, if they are such as texts
keep. -/
def Recognised (t : Task μ) (o : Objective) (p : Progress μ) : Prop :=
  ∀ items q, (walk (visit t) items p).2 = q →
    q.results.contains o.model o = true ∧
    ∀ time files path files', (∀ r ∈ q.results.records, r.Storable ∧ r.ReadsBack) →
      t.store.save t.config time q.results files = (.ok path, files') →
        ∃ s, t.store.load t.config files' = .ok (.restored s) ∧ s.contains o.model o = true

theorem Accepts.records (accepts : Accepts t name o p r) :
    (visit t (name, o) p).2.results.records = p.results.records ++ [r] := by
  obtain ⟨unknown, within, good, fresh⟩ := accepts
  have ways := visited t name o p
  generalize visit t (name, o) p = after at ways
  obtain ⟨res, q⟩ := after
  simp only at ways ⊢
  cases ways with
  | skipped known => simp [unknown] at known
  | left _ beyond => simp [within] at beyond
  | stopped _ _ settling =>
    have joins : (measure t p name o).2.results.add r = p.results.add r := rfl
    obtain ⟨_, added, _⟩ := ResultSet.add_of_fresh fresh
    rw [good, settle, addRecord, joins, added] at settling
    cases settling
  | counted _ _ settling saving =>
    obtain ⟨files, unsaved, rfl⟩ := saving_snd saving
    rw [good] at settling
    exact (settled settling).records

theorem contains_mono {s s' : ResultSet} (h : s.records <+: s'.records) {model : String}
    (found : s.contains model o = true) : s'.contains model o = true := by
  obtain ⟨known, hk, point⟩ := ResultSet.contains_iff.mp found
  exact ResultSet.contains_iff.mpr ⟨known, h.subset hk, point⟩

theorem recognised_of_contains (found : p.results.contains o.model o = true) :
    Recognised t o p := by
  rintro items q rfl
  have later := contains_mono (walk_grows t items p) found
  refine ⟨later, ?_⟩
  intro time files path files' kept saved
  obtain ⟨made, l, _, place, rfl⟩ := t.store.save_eq_ok t.config saved
  refine ⟨_, ?_, (ResultSet.contains_sorted _ _ _).trans later⟩
  exact t.store.load_place t.config place (fun r hr => (kept r hr).1) fun r hr => (kept r hr).2

/-- An accepted objective is recognised from then on just when the record has its very values. The
record has them up to the signs of zeros, and so has them where the objective has no zeros. -/
theorem recognised_iff_of_accepted (accepts : Accepts t name o p r) (held : o.HeldValues)
    (held' : r.objective.HeldValues) :
    (Recognised t o (visit t (name, o) p).2 ↔
      ∀ parameter, r.objective.value? parameter = o.value? parameter) ∧
    (∀ parameter, (r.objective.value? parameter).map Json.unsigned =
      (o.value? parameter).map Json.unsigned) ∧
    ((∀ e ∈ o.values.entries, e.2.ZeroFree) → Recognised t o (visit t (name, o) p).2) := by
  obtain ⟨_, answered, _⟩ := judge_eq_good accepts.good
  obtain ⟨models, points⟩ : r.model = o.model ∧ r.objective.samePoint o = true := by
    simpa [answers] using answered
  obtain ⟨models', images⟩ := (Objective.samePoint_iff held' held).mp points
  -- The point was unknown before, so only the new record can be the one that is found.
  have found_iff : (visit t (name, o) p).2.results.contains o.model o = true ↔
      r.objective.gridKey = o.gridKey := by
    rw [ResultSet.contains_iff, accepts.records]
    constructor
    · rintro ⟨known, hk, named, keys⟩
      rcases List.mem_append.mp hk with earlier | new
      · have before := ResultSet.contains_iff.mpr ⟨known, earlier, named, keys⟩
        rw [accepts.unknown] at before
        cases before
      · rwa [← List.mem_singleton.mp new]
    · intro keys
      exact ⟨r, List.mem_append_right _ List.mem_cons_self, models, keys⟩
  refine ⟨?_, images, ?_⟩
  · constructor
    · intro recognised
      have found := (recognised [] _ rfl).1
      exact ((Objective.gridKey_eq_iff held' held).mp (found_iff.mp found)).2
    · intro values
      have keys := (Objective.gridKey_eq_iff held' held).mpr ⟨models', values⟩
      exact recognised_of_contains (found_iff.mpr keys)
  · intro free
    have keys := Objective.gridKey_of_samePoint held' held free points
    exact recognised_of_contains (found_iff.mpr keys)

def zeroPoint : Objective := ⟨"m", .ofList [("a", .num (.float .zero))], .empty⟩

/-- The record of a measurement that gives the value back with the other sign. -/
def negatedRecord : RunRecord :=
  .of "m_run_0" ⟨"m", .ofList [("a", .num (.float Double.zero.negate))], .empty⟩ .empty

def negating : Task Unit where
  config := ⟨some "demo", .standard, [],
    ⟨.ofList [("m", .ofList [("a", .categorical [.num (.float .zero)])])]⟩⟩
  store := ⟨"checkpoints"⟩
  options := ⟨false, 1, .skip, none⟩
  time := "now"
  measurer _ _ _ memory := (.ok negatedRecord, memory)

theorem held_zero {negative : Bool} : (Json.num (.float ⟨negative, 0, 0⟩)).Held := by
  apply Json.held_num
  cases negative <;> rfl

/-- A zero with the other sign is accepted and never recognised. -/
theorem recognised_iff_of_accepted_negated :
    Accepts negating "m_run_0" zeroPoint (.start .empty .initial ()) negatedRecord ∧
      ¬ Recognised negating zeroPoint
        (visit negating ("m_run_0", zeroPoint) (.start .empty .initial ())).2 := by
  have accepts : Accepts negating "m_run_0" zeroPoint (.start .empty .initial ()) negatedRecord :=
    ⟨rfl, rfl, rfl, by decide⟩
  have held : zeroPoint.HeldValues := by
    intro e he
    obtain rfl := List.mem_singleton.mp he
    exact held_zero
  have held' : negatedRecord.objective.HeldValues := by
    intro e he
    obtain rfl := List.mem_singleton.mp he
    exact held_zero
  obtain ⟨exactly, _, _⟩ := recognised_iff_of_accepted accepts held held'
  refine ⟨accepts, ?_⟩
  intro recognised
  have values := exactly.mp recognised "a"
  injection values with same
  injection same with same
  injection same with same
  exact absurd same (by decide)

end GridSweep.Sweep
