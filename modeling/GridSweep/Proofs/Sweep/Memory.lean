import GridSweep.Proofs.Sweep.Visit

/-!
What a measurer remembers. A measurer that answers like another one and remembers more runs the same
sweep: what it remembers beyond the other changes neither results nor files (`run_recalled`). So a
measurer may be given a log of its calls, and what the log says is true of the sweep without it. The
same holds of the saves of a sweep, where those are noted in the memory too (`runBy_recalled`).
-/
namespace GridSweep.Sweep

variable {μ ν : Type}

/-- The measurer answers like another one, whose memory is what `f` leaves of its own. -/
def Measurer.Recalls (m : Measurer ν) (f : ν → μ) (other : Measurer μ) : Prop :=
  ∀ name o files memory, other name o files (f memory) = (m name o files memory).map id f

def Task.measuredBy (t : Task μ) (m : Measurer ν) : Task ν :=
  ⟨t.config, t.store, t.options, t.time, m⟩

def Progress.recalled (f : ν → μ) (p : Progress ν) : Progress μ :=
  { p with memory := f p.memory }

variable {t : Task μ} {m : Measurer ν} {f : ν → μ} {p : Progress ν}

theorem addRecord_recalled (r : RunRecord) :
    addRecord (p.recalled f) r = (addRecord p r).map (Progress.recalled f) := by
  unfold addRecord
  have same : (p.recalled f).results = p.results := rfl
  rw [same]
  cases p.results.add r <;> rfl

theorem settle_recalled (name : String) (o : Objective) (v : Verdict) :
    settle t name o (p.recalled f) v =
      (settle (t.measuredBy m) name o p v).map (Progress.recalled f) := by
  cases v with
  | fatal e => rfl
  | good r =>
    rw [settle, settle, addRecord_recalled]
    cases addRecord p r <;> rfl
  | failure =>
    have policy : (t.measuredBy m).options.policy = t.options.policy := rfl
    unfold settle
    cases kept : t.options.policy with
    | skip => simp only [policy, kept]; rfl
    | record =>
      simp only [policy, kept]
      exact addRecord_recalled (p := { p with failed := p.failed + 1 }) _

theorem save_recalled :
    save t (p.recalled f) = (save (t.measuredBy m) p).map id (Progress.recalled f) := by
  have stored : (t.measuredBy m).store.save (t.measuredBy m).config (t.measuredBy m).time p.results
      p.files = t.store.save t.config t.time (p.recalled f).results (p.recalled f).files := rfl
  unfold save
  rw [stored]
  cases t.store.save t.config t.time (p.recalled f).results (p.recalled f).files with
  | mk res files => cases res <;> rfl

theorem measure_recalled (recalls : m.Recalls f t.measurer) (name : String) (o : Objective) :
    measure t (p.recalled f) name o =
      (measure (t.measuredBy m) p name o).map id (Progress.recalled f) := by
  have called : t.measurer name o (p.recalled f).files (p.recalled f).memory =
      (m name o p.files p.memory).map id f := recalls name o p.files p.memory
  unfold measure
  rw [called]
  rfl

/-- The saver saves like another one, whose memory is what `f` leaves of its own. -/
def Saver.Recalls (saver : Saver ν) (f : ν → μ) (other : Saver μ) : Prop :=
  ∀ p : Progress ν, other (p.recalled f) = (saver p).map id (Progress.recalled f)

variable {saver : Saver ν} {other : Saver μ}

theorem visitBy_recalled (recalls : m.Recalls f t.measurer) (saves : saver.Recalls f other)
    (item : String × Objective) : visitBy other t item (p.recalled f) =
      (visitBy saver (t.measuredBy m) item p).map id (Progress.recalled f) := by
  obtain ⟨name, o⟩ := item
  have results : (p.recalled f).results = p.results := rfl
  have attempts : (p.recalled f).attempts = p.attempts := rfl
  have options : (t.measuredBy m).options = t.options := rfl
  by_cases known : p.results.contains o.model o = true
  · simp only [visitBy, results, if_pos known]
    rfl
  by_cases beyond : t.options.limit.any (· ≤ p.attempts) = true
  · simp only [visitBy, results, attempts, options, if_neg known, if_pos beyond]
    rfl
  simp only [visitBy, results, attempts, options, if_neg known, if_neg beyond,
    measure_recalled recalls, Prod.map_fst, Prod.map_snd, id, settle_recalled (m := m)]
  cases settle (t.measuredBy m) name o (measure (t.measuredBy m) p name o).2
      (judge name o (measure (t.measuredBy m) p name o).1) with
  | error e => rfl
  | ok q =>
    have due : isDue t (q.recalled f) = isDue (t.measuredBy m) q := rfl
    simp only [Except.map, due]
    split
    · exact saves q
    · rfl

theorem restore_measuredBy (m : Measurer ν) (files : Files.Tree) :
    restore (t.measuredBy m) files = restore t files := by
  have loaded (files : Files.Tree) :
      (t.measuredBy m).store.load (t.measuredBy m).config files = t.store.load t.config files := rfl
  have discarded : (t.measuredBy m).store.discard (t.measuredBy m).config files =
      t.store.discard t.config files := rfl
  have options : (t.measuredBy m).options = t.options := rfl
  unfold restore
  rw [discarded, options]
  simp only [loaded]

theorem runBy_recalled (recalls : m.Recalls f t.measurer) (saves : saver.Recalls f other)
    (files : Files.Tree) (memory : ν) :
    runBy other t files (f memory) =
      ⟨(runBy saver (t.measuredBy m) files memory).result,
        (runBy saver (t.measuredBy m) files memory).files,
        f (runBy saver (t.measuredBy m) files memory).memory⟩ := by
  have domain : (t.measuredBy m).config = t.config := rfl
  unfold runBy
  rw [restore_measuredBy, domain]
  cases restore t files with
  | mk res files =>
    cases res with
    | error e => rfl
    | ok results =>
      have walked : t.config.domain.walkNamed (visitBy other t) (.start results files (f memory)) =
          (t.config.domain.walkNamed (visitBy saver (t.measuredBy m)) (.start results files memory)).map
            id (Progress.recalled f) := by
        rw [Domain.walkNamed_eq, Domain.walkNamed_eq]
        exact walk_image (fun item p => visitBy_recalled recalls saves item) _
          (Progress.start results files memory)
      simp only [walked]
      cases t.config.domain.walkNamed (visitBy saver (t.measuredBy m))
          (.start results files memory) with
      | mk res p =>
        cases res with
        | error e => rfl
        | ok u =>
          simp only [Prod.map, id, saves p]
          cases saver p with
          | mk res q => cases res <;> rfl

/-- What a measurer remembers beyond another one changes nothing else. -/
theorem run_recalled (recalls : m.Recalls f t.measurer) (files : Files.Tree) (memory : ν) :
    run t files (f memory) =
      ⟨(run (t.measuredBy m) files memory).result, (run (t.measuredBy m) files memory).files,
        f (run (t.measuredBy m) files memory).memory⟩ := by
  have saves : Saver.Recalls (save (t.measuredBy m)) f (save t) := fun _ => save_recalled
  simp only [← runBy_save]
  exact runBy_recalled recalls saves files memory

end GridSweep.Sweep
