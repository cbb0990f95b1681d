import GridSweep.Proofs.Checkpoint.RoundTrip
import GridSweep.Proofs.Sweep.Accounting

/-!
What an interrupted sweep loses. With a positive interval the records are at any call of the measurer
those last written, or those restored, and fewer than the interval behind them; with interval zero the
files stay as they were restored from until the save at the end (`bounded_loss`). The calls, and the
files at each of them, are those that the measurer itself has written down.
-/
namespace GridSweep.Sweep

open Files (Tree)

variable {μ : Type}

structure Moment where
  call : Call
  files : Tree

/-- The measurer that also writes down its calls and what it sees. -/
def Measurer.observed (m : Measurer μ) : Measurer (μ × List Moment) :=
  fun name o files (memory, log) =>
    let (answer, memory) := m name o files memory
    (answer, memory, log ++ [⟨⟨name, o, answer⟩, files⟩])

def Task.observed (t : Task μ) : Task (μ × List Moment) :=
  t.measuredBy (Measurer.observed t.measurer)

theorem restore_observed (t : Task μ) (files : Tree) : restore t.observed files = restore t files :=
  restore_measuredBy (Measurer.observed t.measurer) files

theorem run_observed (t : Task μ) (files : Tree) (memory : μ) :
    run t files memory =
      ⟨(run t.observed files (memory, [])).result, (run t.observed files (memory, [])).files,
        (run t.observed files (memory, [])).memory.1⟩ :=
  run_recalled (f := Prod.fst) (fun _ _ _ _ => rfl) files (memory, [])

def recordsAfter (t : Task μ) (restored : ResultSet) (log : List Moment) : List RunRecord :=
  restored.records ++ log.filterMap fun m => m.call.record? t.options.policy

/-- The results that the checkpoint was last written with; the restored ones while nothing was. -/
inductive LastWritten (t : Task μ) (restored : ResultSet) (there : Tree) : Tree → ResultSet → Prop where
  | nothing : LastWritten t restored there there restored
  | content {files : Tree} {s : ResultSet}
      (read : files.read (t.store.path t.config) = .ok (Store.render t.config t.time s).toUTF8) :
      LastWritten t restored there files s

/-- What may be lost when a sweep with these records ends here, leaving these files. -/
structure Bounded (t : Task μ) (restored : ResultSet) (there : Tree) (records : List RunRecord)
    (files : Tree) : Prop where
  behind : 0 < t.options.interval → ∃ s new, LastWritten t restored there files s ∧
    records = s.records ++ new ∧ new.length < t.options.interval
  untouched : t.options.interval = 0 → files = there

def BoundedAlong (t : Task μ) (restored : ResultSet) (there : Tree) (log : List Moment) : Prop :=
  ∀ before m after, log = before ++ m :: after →
    Bounded t restored there (recordsAfter t restored before) m.files

/-- A sweep under way has as many unsaved records as its count says. -/
structure Tracked (t : Task μ) (restored : ResultSet) (there : Tree)
    (p : Progress (μ × List Moment)) : Prop where
  records : p.results.records = recordsAfter t restored p.memory.2
  behind : ∃ s new, LastWritten t restored there p.files s ∧
    p.results.records = s.records ++ new ∧ new.length = p.unsaved
  untouched : t.options.interval = 0 → p.files = there
  log : BoundedAlong t restored there p.memory.2

def Few (t : Task μ) (unsaved : Nat) : Prop := 0 < t.options.interval → unsaved < t.options.interval

section Step

variable {t : Task μ} {restored : ResultSet} {there : Tree} {p q : Progress (μ × List Moment)}
  {name : String} {o : Objective} {item : String × Objective}

theorem tracked_start (t : Task μ) (restored : ResultSet) (there : Tree) (memory : μ) :
    Tracked t restored there (.start restored there (memory, [])) where
  records := (List.append_nil _).symm
  behind := ⟨restored, [], .nothing, (List.append_nil _).symm, rfl⟩
  untouched _ := rfl
  log before m after split := by simp [Progress.start] at split

theorem Tracked.bounded (tracked : Tracked t restored there p) (few : Few t p.unsaved) :
    Bounded t restored there (recordsAfter t restored p.memory.2) p.files where
  behind positive := by
    obtain ⟨s, new, written, records, length⟩ := tracked.behind
    have := few positive
    exact ⟨s, new, written, tracked.records.symm.trans records, by omega⟩
  untouched := tracked.untouched

theorem recordsAfter_concat (log : List Moment) (m : Moment) :
    recordsAfter t restored (log ++ [m]) =
      recordsAfter t restored log ++ (m.call.record? t.options.policy).toList := by
  cases recorded : m.call.record? t.options.policy <;> simp [recordsAfter, recorded]

/-- The log stays bounded when a call is made: the moment of the call is one of the sweep under way. -/
theorem Tracked.log_measure (tracked : Tracked t restored there p) (few : Few t p.unsaved) :
    BoundedAlong t restored there (measure t.observed p name o).2.memory.2 := by
  -- The last moment is that of this call, and the log had the others before.
  exact throughout_concat.mpr ⟨tracked.log, tracked.bounded few⟩

theorem Tracked.settle (tracked : Tracked t restored there p) (few : Few t p.unsaved)
    (settling : settle t.observed name o (measure t.observed p name o).2
      (judge name o (measure t.observed p name o).1) = .ok q) : Tracked t restored there q := by
  have step := settled settling
  let m : Moment := ⟨⟨name, o, (measure t.observed p name o).1⟩, p.files⟩
  let new := (m.call.record? t.options.policy).toList
  have files : q.files = p.files := step.files
  have records : q.results.records = p.results.records ++ new := step.records
  have unsaved : q.unsaved = p.unsaved + new.length := step.unsaved
  have memory : q.memory.2 = p.memory.2 ++ [m] := congrArg Prod.snd step.memory
  obtain ⟨s, old, written, before, length⟩ := tracked.behind
  constructor
  · rw [records, memory, recordsAfter_concat, tracked.records]
  · refine ⟨s, old ++ new, files ▸ written, ?_, ?_⟩
    · rw [records, before, List.append_assoc]
    · rw [List.length_append, length, unsaved]
  · intro zero
    exact files.trans (tracked.untouched zero)
  · rw [step.memory]
    exact tracked.log_measure few

/-- After a save that was due, or none, fewer records are unsaved than the interval. -/
theorem Tracked.saving (tracked : Tracked t restored there p)
    (saving : (if isDue t.observed p then save t.observed p else (.ok (), p)) = (.ok (), q)) :
    Tracked t restored there q ∧ Few t q.unsaved := by
  have due_iff : isDue t.observed p = true ↔
      0 < t.options.interval ∧ t.options.interval ≤ p.unsaved := by
    rw [isDue, Bool.and_eq_true, decide_eq_true_eq, decide_eq_true_eq]
    rfl
  split at saving
  · rename_i due
    obtain ⟨positive, -⟩ := due_iff.mp due
    obtain ⟨path, files, saved, rfl⟩ := save_eq_ok saving
    have read : files.read (t.store.path t.config) =
        .ok (Store.render t.config t.time p.results).toUTF8 := t.store.read_of_save t.config saved
    refine ⟨⟨tracked.records, ⟨p.results, [], .content read, ?_, rfl⟩, ?_, tracked.log⟩, id⟩
    · exact (List.append_nil _).symm
    · intro zero
      omega
  · rename_i notDue
    obtain rfl := (Prod.mk.inj saving).2
    refine ⟨tracked, ?_⟩
    intro positive
    rw [due_iff] at notDue
    omega

theorem Tracked.visit (tracked : Tracked t restored there p ∧ Few t p.unsaved)
    (went : visit t.observed item p = (.ok (), q)) :
    Tracked t restored there q ∧ Few t q.unsaved := by
  obtain ⟨tracked, few⟩ := tracked
  have ways := visited t.observed item.1 item.2 p
  rw [went] at ways
  cases ways with
  | skipped known => exact ⟨⟨tracked.records, tracked.behind, tracked.untouched, tracked.log⟩, few⟩
  | left unknown beyond => exact ⟨⟨tracked.records, tracked.behind, tracked.untouched, tracked.log⟩, few⟩
  | counted unknown within settling saving => exact (tracked.settle few settling).saving saving

/-- How a sweep under way can fail: at a save, or by what a call of the measurer came to, with the files
as they were at the call. -/
theorem Tracked.visit_error {e : SweepError} (tracked : Tracked t restored there p ∧ Few t p.unsaved)
    (went : Sweep.visit t.observed item p = (.error e, q)) :
    BoundedAlong t restored there q.memory.2 ∧
      ((∃ cause, e = .checkpoint cause) ∨
        ∃ before m, q.memory.2 = before ++ [m] ∧ q.files = m.files) := by
  obtain ⟨tracked, few⟩ := tracked
  have ways := visited t.observed item.1 item.2 p
  rw [went] at ways
  cases ways with
  | stopped unknown within settling => exact ⟨tracked.log_measure few, .inr ⟨_, _, rfl, rfl⟩⟩
  | counted unknown within settling saving =>
    split at saving
    · obtain ⟨cause, files, rfl⟩ := save_eq_error saving
      exact ⟨(tracked.settle few settling).log, .inl cause⟩
    · cases (Prod.mk.inj saving).1

end Step

section Run

variable {t : Task μ} {restored : ResultSet} {there files : Tree} {memory : μ}

structure Ended (t : Task μ) (restored : ResultSet) (there : Tree)
    (ending : Ending (μ × List Moment)) : Prop where
  along : BoundedAlong t restored there ending.memory.2
  finished : ∀ outcome, ending.result = .ok outcome →
    outcome.results.records = recordsAfter t restored ending.memory.2 ∧
      (t.options.interval = 0 → ∃ path,
        t.store.save t.config t.time outcome.results there = (.ok path, ending.files))
  failed : ∀ e, ending.result = .error e → (∃ cause, e = .checkpoint cause) ∨
    ∃ before m, ending.memory.2 = before ++ [m] ∧ ending.files = m.files

theorem ended_observed (began : restore t files = (.ok restored, there)) :
    Ended t restored there (run t.observed files (memory, [])) := by
  have began' : restore t.observed files = (.ok restored, there) :=
    (restore_observed t files).trans began
  have start := tracked_start t restored there memory
  have few : Few t (Progress.start restored there (memory, ([] : List Moment))).unsaved := id
  rw [run_of_restore began']
  split
  · rename_i e p walked
    -- The walk has failed at a visit that began with a sweep under way.
    obtain ⟨item, _, s, reached, went⟩ :=
      walk_error (I := fun p => Tracked t restored there p ∧ Few t p.unsaved)
        Tracked.visit ⟨start, few⟩ walked
    obtain ⟨along, cause⟩ := Tracked.visit_error reached went
    refine ⟨along, ?_, ?_⟩
    · intro outcome ended
      cases ended
    · rintro _ ⟨⟩
      exact cause
  · rename_i p walked
    obtain ⟨tracked, _⟩ : Tracked t restored there p ∧ Few t p.unsaved :=
      walk_keeps Tracked.visit ⟨start, few⟩ walked
    split
    · rename_i e q saved
      obtain ⟨cause, files, rfl⟩ := save_eq_error saved
      refine ⟨tracked.log, ?_, ?_⟩
      · intro outcome ended
        cases ended
      · rintro _ ⟨⟩
        exact .inl cause
    · rename_i q saved
      obtain ⟨path, files, stored, rfl⟩ := save_eq_ok saved
      refine ⟨tracked.log, ?_, ?_⟩
      · rintro _ ⟨⟩
        refine ⟨tracked.records, ?_⟩
        intro zero
        rw [tracked.untouched zero] at stored
        exact ⟨path, stored⟩
      · intro e failed
        cases failed

/-- From the files of an interrupted sweep a later start restores all but the last few records, if
they are such as checkpoints keep. -/
theorem Bounded.load {records : List RunRecord} {left : Tree}
    (bounded : Bounded t restored there records left)
    (began : restore t files = (.ok restored, there)) (positive : 0 < t.options.interval)
    (kept : ∀ r ∈ records, r.Storable ∧ r.ReadsBack) :
    ∃ state new, t.store.load t.config left = .ok state ∧
      records.map RunRecord.sorted = state.results.records.map RunRecord.sorted ++ new ∧
      new.length < t.options.interval := by
  obtain ⟨s, new, written, rfl, few⟩ := bounded.behind positive
  cases written with
  | nothing =>
    obtain ⟨state, loaded, rfl⟩ := load_of_restore began
    exact ⟨state, new.map RunRecord.sorted, loaded, List.map_append, by simpa using few⟩
  | content read =>
    have early : ∀ r ∈ s.records, r.Storable ∧ r.ReadsBack :=
      fun r hr => kept r (List.mem_append_left _ hr)
    have loaded := t.store.load_of_content t.config read (fun r hr => (early r hr).1)
      fun r hr => (early r hr).2
    refine ⟨_, new.map RunRecord.sorted, loaded, ?_, by simpa using few⟩
    have twice : s.sorted.records.map RunRecord.sorted = s.records.map RunRecord.sorted :=
      congrArg ResultSet.records s.sorted_sorted
    rw [List.map_append]
    exact congrArg (· ++ _) twice.symm

end Run

/-- Wherever a sweep is interrupted, few records are lost: this holds at every call of the measurer, of
which the log has all, and when a call has ended the sweep. -/
theorem bounded_loss (t : Task μ) (files : Tree) (memory : μ) :
    ∃ log, run t.observed files (memory, []) =
        ⟨(run t files memory).result, (run t files memory).files, (run t files memory).memory, log⟩ ∧
      ((restore t files).1.isOk = false → log = []) ∧
      ∀ restored there, restore t files = (.ok restored, there) →
        Ended t restored there (run t.observed files (memory, [])) ∧
        ∀ before m after, log = before ++ m :: after → 0 < t.options.interval →
          (∀ r ∈ recordsAfter t restored before, r.Storable ∧ r.ReadsBack) →
            ∃ state new, t.store.load t.config m.files = .ok state ∧
              (recordsAfter t restored before).map RunRecord.sorted =
                state.results.records.map RunRecord.sorted ++ new ∧
              new.length < t.options.interval := by
  refine ⟨(run t.observed files (memory, [])).memory.2, ?_, ?_, ?_⟩
  · rw [run_observed t]
  · intro refused
    rw [run, restore_observed]
    split
    · rfl
    · rename_i restored
      rw [restored] at refused
      cases refused
  · intro restored there began
    have ended : Ended t restored there (run t.observed files (memory, [])) := ended_observed began
    refine ⟨ended, ?_⟩
    intro before m after split positive kept
    exact (ended.along before m after split).load began positive kept

/-- A sweep that saves every two records. The answer to the fourth call is of another model. -/
def breaking : Task Nat where
  config := ⟨some "demo", .standard, [],
    ⟨.ofList [("m", .ofList [("a", .categorical [.ofInt 1, .ofInt 2, .ofInt 3, .ofInt 4])])]⟩⟩
  store := ⟨"checkpoints"⟩
  options := ⟨false, 2, .skip, none⟩
  time := "now"
  measurer name o _ calls :=
    (.ok (.of name (if calls = 3 then ⟨"n", .empty, .empty⟩ else o) .empty), calls + 1)

theorem bounded_loss_breaking :
    ∃ before m, (run breaking.observed .initial (0, [])).memory.2 = before ++ [m] ∧
      before.length = 3 ∧ (run breaking .initial 0).files = m.files ∧
      Bounded breaking .empty .initial (recordsAfter breaking .empty before) m.files := by
  have calls : (run breaking.observed .initial (0, [])).memory.2.length = 4 := by decide +kernel
  obtain ⟨d, result⟩ : ∃ d, (run breaking.observed .initial (0, [])).result =
      .error (.measurement d) := ⟨_, rfl⟩
  obtain ⟨log, whole, _, rest⟩ := bounded_loss breaking .initial 0
  obtain ⟨⟨along, _, failed⟩, _⟩ := rest .empty .initial rfl
  rcases failed _ result with ⟨_, other⟩ | ⟨before, m, split, files⟩
  · cases other
  · refine ⟨before, m, split, ?_, ?_, along before m [] split⟩
    · rw [split, List.length_append, List.length_singleton] at calls
      omega
    · rw [← files, whole]

end GridSweep.Sweep
