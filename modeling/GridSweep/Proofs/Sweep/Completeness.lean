import GridSweep.Proofs.Sweep.Skipping

namespace GridSweep.Sweep

variable {μ : Type}

def Covers (s : ResultSet) (d : Domain) : Prop := ∀ o ∈ d.objectives, s.contains o.model o = true

theorem covers_iff_named {s : ResultSet} {d : Domain} :
    Covers s d ↔ ∀ item ∈ d.named, covered s item = true := by
  rw [Covers, ← d.objectives_named, List.forall_mem_map]
  rfl

section Ended

variable {options : Options} {restored : ResultSet} {d : Domain} {calls : List Call} {c : Call}
  {outcome : Outcome} {m : Measurer μ}

theorem Counted.covers_iff (counted : Counted m d.named calls outcome)
    (accounts : Accounts options restored d.named calls outcome) :
    Covers outcome.results d ↔
      outcome.remaining = 0 ∧ ∀ c ∈ calls, covered outcome.results c.item = true := by
  rw [covers_iff_named]
  constructor
  · intro each
    constructor
    · rw [counted.remaining, List.countP_eq_zero]
      intro i hi
      simp [each i hi]
    · intro c hc
      exact each c.item (accounts.order.subset (List.mem_map_of_mem hc))
  · rintro ⟨none, called⟩ i hi
    cases unasked : asked calls i with
    | true =>
      obtain ⟨c, hc, rfl⟩ := List.mem_map.mp (accounts.item_of_asked d.nodup_names hi unasked)
      exact called c hc
    | false => exact counted.covered_of_not_asked none hi unasked

theorem Counted.covered_of_record (counted : Counted m d.named calls outcome)
    (accounts : Accounts options restored d.named calls outcome) (faithful : m.Faithful)
    (hc : c ∈ calls) {r : RunRecord} (left : c.record? options.policy = some r) :
    covered outcome.results c.item = true := by
  apply ResultSet.contains_iff_mem.mpr
  have own : r.point = c.item.2.point := (counted.genuine c hc).point faithful left
  rw [← own, accounts.records]
  apply List.mem_map_of_mem
  exact List.mem_append_right _ (List.mem_filterMap.mpr ⟨c, hc, left⟩)

/-- A call that did not fail has left a record, and so has one that failed if failures are recorded. -/
theorem Counted.leaves (counted : Counted m d.named calls outcome) (policy : FailurePolicy)
    (hc : c ∈ calls) (kept : c.verdict.isFailure = false ∨ policy = .record) :
    ∃ r, c.record? policy = some r := by
  have judged := counted.judged c hc
  unfold Call.record?
  cases verdict : c.verdict with
  | fatal e => simp [verdict, Verdict.isGood, Verdict.isFailure] at judged
  | good r => exact ⟨r, rfl⟩
  | failure =>
    have recorded : policy = .record := by simpa [verdict, Verdict.isFailure] using kept
    exact ⟨failedRecord c.name c.objective, by simp [Verdict.record?, recorded]⟩

theorem Counted.complete_iff (counted : Counted m d.named calls outcome)
    (accounts : Accounts options restored d.named calls outcome) (faithful : m.Faithful) :
    outcome.isComplete = true ↔ Covers outcome.results d ∧ outcome.failed = 0 := by
  rw [Outcome.isComplete, Bool.and_eq_true, beq_iff_eq, beq_iff_eq, counted.covers_iff accounts]
  constructor
  · rintro ⟨none, sound⟩
    refine ⟨⟨none, fun c hc => ?_⟩, sound⟩
    have fine := List.countP_eq_zero.mp (accounts.failed.symm.trans sound) c hc
    obtain ⟨r, left⟩ := counted.leaves options.policy hc (.inl (by simpa using fine))
    exact counted.covered_of_record accounts faithful hc left
  · rintro ⟨⟨none, _⟩, sound⟩
    exact ⟨none, sound⟩

/-- Where points come once, a failure that is not recorded stays without a record. -/
theorem Counted.none_failed (counted : Counted m d.named calls outcome)
    (accounts : Accounts options restored d.named calls outcome) (faithful : m.Faithful)
    (policy : options.policy = .skip) (apart : (d.objectives.map Objective.point).Nodup)
    (covers : Covers outcome.results d) : outcome.failed = 0 := by
  rw [accounts.failed, List.countP_eq_zero]
  intro c hc failed
  have known : c.item ∈ d.named := accounts.order.subset (List.mem_map_of_mem hc)
  rcases counted.point_of_covered accounts faithful (covers_iff_named.mp covers c.item known) with
    there | ⟨e, he, ⟨r, left⟩, point⟩
  · have unasked := accounts.not_asked_of_restored d.nodup_names known there
    simp [asked, Call.item] at unasked
    exact unasked c hc rfl
  · have known' : e.item ∈ d.named := accounts.order.subset (List.mem_map_of_mem he)
    rw [← points_named] at apart
    have items : e.item = c.item := List.inj_on_of_nodup_map apart known' known point
    have names : (calls.map fun c => c.item.1).Nodup := by
      have order := accounts.order.map Prod.fst
      rw [List.map_map] at order
      exact d.nodup_names.sublist order
    obtain rfl : e = c := List.inj_on_of_nodup_map names he hc (congrArg Prod.fst items)
    cases verdict : e.verdict with
    | fatal cause => simp [verdict, Verdict.isFailure] at failed
    | good r => simp [verdict, Verdict.isFailure] at failed
    | failure => simp [Call.record?, verdict, Verdict.record?, policy] at left

end Ended

/-- The flag says that every objective has a record and no measurement of this run has failed. With
failures on record an objective has a record if it was not left out; without them, and if points come
once, the flag is set just when every objective has a record. -/
theorem isComplete_iff (t : Task μ) (files : Files.Tree) (memory : μ) (outcome : Outcome)
    (faithful : t.measurer.Faithful) (ended : (run t files memory).result = .ok outcome) :
    (outcome.isComplete = true ↔
      Covers outcome.results t.config.domain ∧ outcome.failed = 0) ∧
    (t.options.policy = .record →
      (Covers outcome.results t.config.domain ↔ outcome.remaining = 0)) ∧
    (t.options.policy = .skip → (t.config.domain.objectives.map Objective.point).Nodup →
      (outcome.isComplete = true ↔ Covers outcome.results t.config.domain)) := by
  obtain ⟨restored, -, calls, -, -, accounts, counted⟩ := counted_of_run ended
  have complete := counted.complete_iff accounts faithful
  refine ⟨complete, ?_, ?_⟩
  · intro policy
    rw [counted.covers_iff accounts, and_iff_left_iff_imp]
    intro _ c hc
    obtain ⟨r, left⟩ := counted.leaves t.options.policy hc (.inr policy)
    exact counted.covered_of_record accounts faithful hc left
  · intro policy apart
    rw [complete, and_iff_left_iff_imp]
    exact counted.none_failed accounts faithful policy apart

/-- A sweep over one objective, whose measurement fails, with failures on record. -/
def giving : Task Unit where
  config := ⟨some "demo", .standard, [],
    ⟨Table.empty.insert "m" (Table.empty.insert "a" (.categorical [.ofInt 1]))⟩⟩
  store := ⟨"checkpoints"⟩
  options := ⟨false, 1, .record, none⟩
  time := "now"
  measurer _ _ _ memory := (.error (.measurement (.of "measure-exit" "failed" [])), memory)

theorem isComplete_iff_giving : ∃ outcome, (run giving .initial ()).result = .ok outcome ∧
    giving.measurer.Faithful ∧ outcome.isComplete = false ∧
    Covers outcome.results giving.config.domain := by
  have faithful : Measurer.Faithful giving.measurer := by
    intro name o files memory r answered
    cases answered
  have counts : (run giving .initial ()).result.toOption.map
      (fun o => (o.isComplete, o.remaining)) = some (false, 0) := by
    decide +kernel
  obtain ⟨outcome, ended, numbers⟩ := ok_of_toOption counts
  obtain ⟨flag, left⟩ := Prod.mk.inj numbers
  obtain ⟨_, recorded, _⟩ := isComplete_iff giving .initial () outcome faithful ended
  exact ⟨outcome, ended, faithful, flag, (recorded rfl).mpr left⟩

end GridSweep.Sweep
