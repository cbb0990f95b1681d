import GridSweep.Proofs.Checkpoint.Rereading
import GridSweep.Proofs.Sweep.Visit

namespace GridSweep.Sweep

variable {μ : Type}

def FiniteMetrics (r : RunRecord) : Prop := ∀ e ∈ r.metrics.entries, e.2.isFinite = true

theorem finiteMetrics_failedRecord (name : String) (o : Objective) :
    FiniteMetrics (failedRecord name o) := by
  intro e he
  simp only [SortedTable.mem_insert_empty.mp he, Double.readsBack_one.isFinite]

theorem finiteMetrics_of_record {policy : FailurePolicy} {name : String} {o : Objective}
    {answer : Except SweepError RunRecord} {r : RunRecord}
    (h : (judge name o answer).record? policy name o = some r) : FiniteMetrics r := by
  cases judged : judge name o answer with
  | fatal e =>
    rw [judged] at h
    cases h
  | good s =>
    rw [judged] at h
    obtain rfl : s = r := Option.some.inj h
    obtain ⟨_, _, fine⟩ := judge_eq_good judged
    intro e he
    simpa using List.find?_eq_none.mp fine e he
  | failure =>
    rw [judged] at h
    cases policy with
    | skip => cases h
    | record =>
      obtain rfl : failedRecord name o = r := Option.some.inj h
      exact finiteMetrics_failedRecord name o

variable {t : Task μ} {restored : ResultSet} {p q : Progress μ} {item : String × Objective}

def Checked (restored : ResultSet) (p : Progress μ) : Prop :=
  ∀ r ∈ p.results.records, r ∈ restored.records ∨ FiniteMetrics r

theorem Checked.visit (checked : Checked restored p) (went : visit t item p = (.ok (), q)) :
    Checked restored q := by
  have ways := visited t item.1 item.2 p
  rw [went] at ways
  cases ways with
  | skipped known => exact checked
  | left unknown beyond => exact checked
  | counted unknown within settling saving =>
    obtain ⟨files, unsaved, rfl⟩ := saving_snd saving
    intro r hr
    simp only [(settled settling).records, List.mem_append, Option.mem_toList] at hr
    rcases hr with before | new
    · exact checked r before
    · exact .inr (finiteMetrics_of_record new)

/-- The results of a sweep that has ended well can be restored just when its records can be kept and
are read back. Its checkpoint is restored or corrupt, and corrupt at least when some record cannot be
kept; that is not for the metrics of a new record, which the sweep has checked. -/
theorem restored_iff_of_ended (t : Task μ) (files : Files.Tree) (memory : μ) (outcome : Outcome)
    (ended : (run t files memory).result = .ok outcome)
    (held : ∀ r ∈ outcome.results.records, r.objective.HeldValues) :
    ((∃ rs, t.store.load t.config (run t files memory).files = .ok (.restored rs) ∧
        rs.same outcome.results = true) ↔
      ∀ r ∈ outcome.results.records, r.Storable ∧ r.ReadsBack) ∧
    ((∃ rs, t.store.load t.config (run t files memory).files = .ok (.restored rs)) ∨
      ∃ fault, t.store.load t.config (run t files memory).files = .error fault ∧
        fault.report.kind = .corrupt) ∧
    ((∃ r ∈ outcome.results.records, ¬r.Storable) →
      ∃ fault, t.store.load t.config (run t files memory).files = .error fault ∧
        fault.report.kind = .corrupt) ∧
    ∃ restored there, Begins t files restored there ∧
      ∀ r ∈ outcome.results.records, r ∈ restored.records ∨ FiniteMetrics r := by
  obtain ⟨restored, there, p, q, began, walked, saved, whole⟩ := run_eq_ok ended
  obtain ⟨path, files', stored, rfl⟩ := save_eq_ok saved
  rw [whole] at ended ⊢
  obtain rfl : p.outcome = outcome := Except.ok.inj ended
  have read : files'.read (t.store.path t.config) =
      .ok (Store.render t.config t.time p.results).toUTF8 := t.store.read_of_save t.config stored
  refine ⟨Store.load_same_iff held read, ?_, ?_, restored, there, begins_of_restore began, ?_⟩
  · rcases Store.load_cases held read with corrupt | ⟨kept, _⟩
    · exact .inr corrupt
    · exact .inl ⟨_, kept⟩
  · rintro ⟨r, hr, unstorable⟩
    exact Store.load_corrupt held read hr unstorable
  · -- Here the sweep itself matters: the files only tell what was saved.
    have start : Checked restored (.start restored there memory) := fun r hr => .inl hr
    exact walk_keeps Checked.visit start walked

/-- One objective, whose measurement comes back with an infinite spread. -/
def spread : Task Unit where
  config := ⟨some "demo", .standard, [], ⟨.ofList [("m", .ofList [("a", .categorical [.ofInt 1])])]⟩⟩
  store := ⟨"checkpoints"⟩
  options := ⟨false, 1, .skip, none⟩
  time := "now"
  measurer name o _ memory :=
    (.ok (.of name (o.withDistribution "load" ⟨.zero, .infinity false⟩) .empty), memory)

def spreadRecord : RunRecord :=
  .of "m_run_0" ⟨"m", .ofList [("a", .ofInt 1)], .ofList [("load", ⟨.zero, .infinity false⟩)]⟩ .empty

def spreadOutcome : Outcome :=
  ⟨1, 0, 0, 0, ⟨[spreadRecord], .ofList [(spreadRecord.name, 0)], rfl, [spreadRecord.point], rfl⟩⟩

theorem restored_iff_of_ended_spread :
    (run spread .initial ()).result = .ok spreadOutcome ∧ spreadOutcome.isComplete = true ∧
      ∃ fault, spread.store.load spread.config (run spread .initial ()).files = .error fault ∧
        fault.report.kind = .corrupt := by
  have ended : (run spread .initial ()).result = .ok spreadOutcome := rfl
  have held : ∀ r ∈ spreadOutcome.results.records, r.objective.HeldValues := by
    intro r hr e he
    obtain rfl := List.mem_singleton.mp hr
    obtain rfl := List.mem_singleton.mp he
    refine ⟨rfl, ?_⟩
    intro n hn
    obtain rfl := List.mem_singleton.mp hn
    constructor <;> decide
  have unstorable : ¬spreadRecord.Storable := by
    intro storable
    have finite := (storable.distributions _ (List.mem_singleton_self _)).2
    exact absurd finite (by decide)
  obtain ⟨_, _, corrupt, _⟩ := restored_iff_of_ended spread .initial () spreadOutcome ended held
  exact ⟨ended, rfl, corrupt ⟨spreadRecord, List.mem_singleton_self _, unstorable⟩⟩

end GridSweep.Sweep
