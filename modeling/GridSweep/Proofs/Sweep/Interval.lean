import GridSweep.Proofs.Checkpoint.RoundTrip
import GridSweep.Proofs.Sweep.Accounting

/-!
The interval between saves is unobservable. Two sweeps that differ in their intervals, and in the times
they write down, save at different moments, so their files differ on the way, and so do their counts of
unsaved records. A measurer that does not look at files tells nothing of it: while the store takes what
it is given, the two stay equal in all else (`visitBy_shown`), from the first visit to the last
(`walk_shown`), so calls and results are the same, and what is saved at the end (`interval_unobservable`).
-/
namespace GridSweep

section Walk

variable {α σ τ ε : Type} {step step' : α → Step σ ε} {view : σ → τ} {good : σ → Prop}

/-- Two walks that show the same after each step, while both are good, show the same at the end if both
are good there. -/
theorem walk_shown
    (each : ∀ a {s s'}, view s = view s' → good (step a s).2 → good (step' a s').2 →
      (step a s).map id view = (step' a s').map id view)
    (back : ∀ a s, good (step a s).2 → good s) (back' : ∀ a s, good (step' a s).2 → good s)
    {l : List α} {s s' : σ} (same : view s = view s') (fine : good (walk step l s).2)
    (fine' : good (walk step' l s').2) :
    (walk step l s).map id view = (walk step' l s').map id view := by
  -- What is good at the end was good on the way.
  have early {step : α → Step σ ε} (back : ∀ a s, good (step a s).2 → good s) (l : List α) (s : σ) :
      good (walk step l s).2 → good s :=
    walk_rel (R := fun s s' => good s' → good s) (fun _ => id) (fun f g => f ∘ g) back l s
  induction l generalizing s s' with
  | nil => exact congrArg (Prod.mk _) same
  | cons a rest ih =>
    simp only [walk] at fine fine' ⊢
    cases stepped : step a s with
    | mk res s₁ =>
      cases stepped' : step' a s' with
      | mk res' s₁' =>
        have ahead (h : good s₁) (h' : good s₁') : res = res' ∧ view s₁ = view s₁' := by
          simpa [stepped, stepped'] using
            each a same (by simpa [stepped] using h) (by simpa [stepped'] using h')
        simp only [stepped, stepped'] at fine fine'
        cases res with
        | error e =>
          cases res' with
          | error e' =>
            obtain ⟨failed, shown⟩ := ahead fine fine'
            simp [failed, shown]
          | ok u' => cases (ahead fine (early back' rest s₁' fine')).1
        | ok u =>
          cases res' with
          | error e' => cases (ahead (early back rest s₁ fine) fine').1
          | ok u' =>
            exact ih (ahead (early back rest s₁ fine) (early back' rest s₁' fine')).2 fine fine'

end Walk

namespace Sweep

open Files (Tree)

section Conclude

variable {μ : Type} {saver : Saver μ} {t : Task μ} {p : Progress μ} {name : String} {o : Objective}

/-- What a visit does when the answer to its call has been settled. -/
def conclude (saver : Saver μ) (t : Task μ) (p : Progress μ) :
    Except SweepError (Progress μ) → Except SweepError Unit × Progress μ
  | .error e => (.error e, p)
  | .ok q => if isDue t q then saver q else (.ok (), q)

theorem visitBy_of_measured (unknown : ¬ p.results.contains o.model o = true)
    (within : ¬ t.options.limit.any (· ≤ p.attempts) = true) :
    visitBy saver t (name, o) p = conclude saver t (measure t p name o).2
      (settle t name o (measure t p name o).2 (judge name o (measure t p name o).1)) := by
  simp only [visitBy, if_neg unknown, if_neg within]
  cases settle t name o (measure t p name o).2 (judge name o (measure t p name o).1) <;> rfl

/-- How a run ends when it has gone through its objectives, or failed on the way. -/
def finish (saver : Saver μ) : Except SweepError Unit × Progress μ → Ending μ
  | (.error e, p) => ⟨.error e, p.files, p.memory⟩
  | (.ok (), p) => match saver p with
    | (.error e, p) => ⟨.error e, p.files, p.memory⟩
    | (.ok (), p) => ⟨.ok p.outcome, p.files, p.memory⟩

theorem runBy_eq_finish {restored : ResultSet} {files there : Tree} {memory : μ}
    (began : restore t files = (.ok restored, there)) :
    runBy saver t files memory =
      finish saver (walk (visitBy saver t) t.config.domain.named (.start restored there memory)) := by
  rw [runBy_of_restore began]
  rfl

end Conclude

variable {μ : Type}

def Measurer.Blind (m : Measurer μ) : Prop :=
  ∀ name o files files' memory, m name o files memory = m name o files' memory

abbrev Reply := Except SweepError Unit

/-- The measurer that carries along what the store has replied, without looking at it. -/
def Measurer.replied (m : Measurer μ) : Measurer (μ × List Reply) :=
  fun name o files (memory, replies) =>
    let (answer, memory) := m name o files memory
    (answer, memory, replies)

def Task.replied (t : Task μ) : Task (μ × List Reply) := t.measuredBy (Measurer.replied t.measurer)

def saveReplied (t : Task μ) : Saver (μ × List Reply) := fun p =>
  let (reply, q) := save t.replied p
  (reply, { q with memory := (q.memory.1, q.memory.2 ++ [reply]) })

def runReplied (t : Task μ) (files : Tree) (memory : μ) : Ending (μ × List Reply) :=
  runBy (saveReplied t) t.replied files (memory, [])

theorem saveReplied_recalls (t : Task μ) : (saveReplied t).Recalls Prod.fst (save t) := by
  intro p
  simp only [save_recalled (m := Measurer.replied t.measurer)]
  rfl

theorem run_replied (t : Task μ) (files : Tree) (memory : μ) :
    run t files memory =
      ⟨(runReplied t files memory).result, (runReplied t files memory).files,
        (runReplied t files memory).memory.1⟩ := by
  rw [← runBy_save]
  exact runBy_recalled (fun _ _ _ _ => rfl) (saveReplied_recalls t) files (memory, [])

def AllSaved (t : Task μ) (files : Tree) (memory : μ) : Prop :=
  ∀ reply ∈ (runReplied t files memory).memory.2, reply = .ok ()

/-- The sweep with this interval, which writes this time into checkpoints. -/
def Task.every (t : Task μ) (interval : Nat) (time : String) : Task μ :=
  { t with options := { t.options with interval }, time }

/-- What the interval cannot change of a sweep under way: all but the files, what is unsaved, and what
the store replied. -/
def Progress.shown (p : Progress (μ × List Reply)) : Outcome × μ := (p.outcome, p.memory.1)

def Progress.Taken (p : Progress (μ × List Reply)) : Prop := ∀ reply ∈ p.memory.2, reply = .ok ()

section Step

variable {t : Task μ} {interval : Nat} {time : String} {p q : Progress (μ × List Reply)}
  {name : String} {o : Objective}

theorem addRecord_shown (same : p.shown = q.shown) (r : RunRecord) :
    (addRecord p r).map Progress.shown = (addRecord q r).map Progress.shown := by
  simp only [Progress.shown, Progress.outcome, Prod.mk.injEq, Outcome.mk.injEq] at same
  unfold addRecord
  rw [same.1.2.2.2.2]
  cases q.results.add r <;> simp [Except.map, Progress.shown, Progress.outcome, same]

theorem settle_shown (same : p.shown = q.shown) (v : Verdict) :
    (settle t.replied name o p v).map Progress.shown =
      (settle (t.every interval time).replied name o q v).map Progress.shown := by
  have parts := same
  simp only [Progress.shown, Progress.outcome, Prod.mk.injEq, Outcome.mk.injEq] at parts
  cases v with
  | fatal e => rfl
  | good r =>
    have added := addRecord_shown same r
    simp only [settle]
    cases first : addRecord p r <;> cases second : addRecord q r <;>
      simp_all [Except.map, Progress.shown, Progress.outcome]
  | failure =>
    have failed : ({ p with failed := p.failed + 1 } : Progress _).shown =
        ({ q with failed := q.failed + 1 } : Progress _).shown := by
      simp [Progress.shown, Progress.outcome, parts]
    have policy : (t.every interval time).replied.options.policy = t.replied.options.policy := rfl
    simp only [settle, policy]
    cases t.replied.options.policy with
    | skip => exact congrArg Except.ok failed
    | record => exact addRecord_shown failed _

theorem saveReplied_shown (taken : (saveReplied t p).2.Taken) :
    (saveReplied t p).1 = .ok () ∧ (saveReplied t p).2.shown = p.shown := by
  obtain ⟨files, unsaved, saved⟩ := save_snd t.replied p
  constructor
  · exact taken _ (List.mem_append_right _ List.mem_cons_self)
  · simp [saveReplied, saved, Progress.shown, Progress.outcome]

theorem taken_of_saveReplied (taken : (saveReplied t p).2.Taken) : p.Taken := by
  obtain ⟨files, unsaved, saved⟩ := save_snd t.replied p
  intro reply noted
  apply taken reply
  simp [saveReplied, saved, noted]

theorem saving_shown
    (taken : (if isDue t.replied p then saveReplied t p else (.ok (), p)).2.Taken) :
    (if isDue t.replied p then saveReplied t p else (.ok (), p)).map id Progress.shown =
      (.ok (), p.shown) := by
  split at taken
  · rename_i due
    obtain ⟨replied, shown⟩ := saveReplied_shown taken
    simp [due, Prod.map, replied, shown]
  · rename_i due
    simp [due]

theorem measure_shown (blind : t.measurer.Blind) (same : p.shown = q.shown) :
    (measure t.replied p name o).map id Progress.shown =
      (measure (t.every interval time).replied q name o).map id Progress.shown := by
  simp only [Progress.shown, Progress.outcome, Prod.mk.injEq, Outcome.mk.injEq] at same
  have answered : t.measurer name o p.files p.memory.1 = t.measurer name o q.files q.memory.1 := by
    rw [same.2]
    exact blind name o p.files q.files q.memory.1
  simp [measure, Task.every, Task.replied, Task.measuredBy, Measurer.replied, Progress.shown,
    Progress.outcome, ← answered, same.1]

/-- What a verdict has come to shows the same in both sweeps, and so does the save after it. -/
theorem conclude_shown {r r' : Except SweepError (Progress (μ × List Reply))}
    (before : p.shown = q.shown) (same : r.map Progress.shown = r'.map Progress.shown)
    (taken : (conclude (saveReplied t) t.replied p r).2.Taken)
    (taken' : (conclude (saveReplied (t.every interval time)) (t.every interval time).replied q
      r').2.Taken) :
    (conclude (saveReplied t) t.replied p r).map id Progress.shown =
      (conclude (saveReplied (t.every interval time)) (t.every interval time).replied q r').map id
        Progress.shown := by
  cases r with
  | error e =>
    cases r' with
    | error e' => simpa [conclude, Except.map, before] using same
    | ok q' => cases same
  | ok p' =>
    cases r' with
    | error e' => cases same
    | ok q' =>
      have shown : p'.shown = q'.shown := Except.ok.inj same
      simp only [conclude] at taken taken' ⊢
      rw [saving_shown taken, saving_shown taken', shown]

/-- The step of the simulation: two visits to one objective show the same, if the store takes what
either of them saves. -/
theorem visitBy_shown (blind : t.measurer.Blind) (item : String × Objective)
    (same : p.shown = q.shown)
    (taken : (visitBy (saveReplied t) t.replied item p).2.Taken)
    (taken' : (visitBy (saveReplied (t.every interval time)) (t.every interval time).replied item
      q).2.Taken) :
    (visitBy (saveReplied t) t.replied item p).map id Progress.shown =
      (visitBy (saveReplied (t.every interval time)) (t.every interval time).replied item q).map id
        Progress.shown := by
  obtain ⟨name, o⟩ := item
  have parts := same
  simp only [Progress.shown, Progress.outcome, Prod.mk.injEq, Outcome.mk.injEq] at parts
  have results : p.results = q.results := parts.1.2.2.2.2
  have attempts : p.attempts = q.attempts := by simp [Progress.attempts, parts]
  have limit : (t.every interval time).replied.options.limit = t.replied.options.limit := rfl
  by_cases known : q.results.contains o.model o = true
  · simp [visitBy, results, known, Progress.shown, Progress.outcome, parts]
  by_cases beyond : t.replied.options.limit.any (· ≤ q.attempts) = true
  · simp [visitBy, results, attempts, limit, known, beyond, Progress.shown, Progress.outcome, parts]
  rw [visitBy_of_measured (results ▸ known) (attempts ▸ beyond)] at taken ⊢
  rw [visitBy_of_measured known (limit ▸ beyond)] at taken' ⊢
  obtain ⟨answers, after⟩ : (measure t.replied p name o).1 =
      (measure (t.every interval time).replied q name o).1 ∧
      (measure t.replied p name o).2.shown =
        (measure (t.every interval time).replied q name o).2.shown := by
    simpa [Prod.map] using measure_shown blind same
  rw [answers] at taken ⊢
  exact conclude_shown after (settle_shown after _) taken taken'

theorem taken_of_conclude {r : Except SweepError (Progress (μ × List Reply))}
    (memory : ∀ q, r = .ok q → q.memory.2 = p.memory.2)
    (taken : (conclude (saveReplied t) t.replied p r).2.Taken) : p.Taken := by
  cases r with
  | error e => exact taken
  | ok q =>
    have taken : q.Taken := by
      simp only [conclude] at taken
      split at taken
      · exact taken_of_saveReplied taken
      · exact taken
    simpa [Progress.Taken, memory q rfl] using taken

theorem taken_of_visitBy (item : String × Objective)
    (taken : (visitBy (saveReplied t) t.replied item p).2.Taken) : p.Taken := by
  obtain ⟨name, o⟩ := item
  by_cases known : p.results.contains o.model o = true
  · simp only [visitBy, if_pos known] at taken
    exact taken
  by_cases beyond : t.replied.options.limit.any (· ≤ p.attempts) = true
  · simp only [visitBy, if_neg known, if_pos beyond] at taken
    exact taken
  rw [visitBy_of_measured known beyond] at taken
  have measured : (measure t.replied p name o).2.Taken := by
    apply taken_of_conclude _ taken
    intro q settling
    rw [(settled settling).memory]
  exact measured

end Step

section Run

variable {t : Task μ} {interval : Nat} {time : String} {files : Tree} {memory : μ}

theorem restore_every : restore (t.every interval time) files = restore t files := by
  have loaded (files : Tree) : (t.every interval time).store.load (t.every interval time).config files =
      t.store.load t.config files := rfl
  have discarded : (t.every interval time).store.discard (t.every interval time).config files =
      t.store.discard t.config files := rfl
  have clean : (t.every interval time).options.clean = t.options.clean := rfl
  unfold restore
  simp only [loaded, discarded, clean]

theorem restore_replied (t : Task μ) (files : Tree) : restore t.replied files = restore t files :=
  restore_measuredBy (Measurer.replied t.measurer) files

theorem taken_of_finish {walked : Except SweepError Unit × Progress (μ × List Reply)}
    (saved : ∀ reply ∈ (finish (saveReplied t) walked).memory.2, reply = .ok ()) :
    walked.2.Taken := by
  obtain ⟨res, p⟩ := walked
  cases res with
  | error e => exact saved
  | ok u =>
    apply taken_of_saveReplied (t := t)
    simp only [finish] at saved
    split at saved <;> simpa [*, Progress.Taken] using saved

/-- A run ends with what its walk has shown, if the store takes what it saves. -/
theorem finish_shown {walked : Except SweepError Unit × Progress (μ × List Reply)}
    (saved : ∀ reply ∈ (finish (saveReplied t) walked).memory.2, reply = .ok ()) :
    (finish (saveReplied t) walked).result = walked.1.map (fun _ => walked.2.shown.1) ∧
      (finish (saveReplied t) walked).memory.1 = walked.2.shown.2 := by
  obtain ⟨res, p⟩ := walked
  cases res with
  | error e => exact ⟨rfl, rfl⟩
  | ok u =>
    have taken : (saveReplied t p).2.Taken := by
      simp only [finish] at saved
      split at saved <;> simpa [*, Progress.Taken] using saved
    obtain ⟨replied, shown⟩ := saveReplied_shown taken
    rw [← shown]
    cases ended : saveReplied t p with
    | mk reply q =>
      obtain rfl : reply = .ok () := by simpa [ended] using replied
      simp only [finish, ended]
      exact ⟨rfl, rfl⟩

/-- By induction over the objectives: the two runs come to the same result, and to the same memory. -/
theorem runReplied_shown (blind : t.measurer.Blind) (saved : AllSaved t files memory)
    (saved' : AllSaved (t.every interval time) files memory) :
    (runReplied t files memory).result = (runReplied (t.every interval time) files memory).result ∧
      (runReplied t files memory).memory.1 =
        (runReplied (t.every interval time) files memory).memory.1 := by
  have began : restore t.replied files = restore t files := restore_replied t files
  have began' : restore (t.every interval time).replied files = restore t files :=
    (restore_replied _ files).trans restore_every
  unfold AllSaved at saved saved'
  cases restored : restore t files with
  | mk res there =>
    rw [restored] at began began'
    cases res with
    | error e => simp only [runReplied, runBy, began, began', and_self]
    | ok results =>
      simp only [runReplied, runBy_eq_finish began, runBy_eq_finish began'] at saved saved' ⊢
      have same := walk_shown (fun item _ _ => visitBy_shown blind item)
        (fun item _ => taken_of_visitBy item) (fun item _ => taken_of_visitBy item) rfl
        (taken_of_finish saved) (taken_of_finish saved')
      obtain ⟨result, shown⟩ := Prod.ext_iff.mp same
      simp only [Prod.map_fst, Prod.map_snd, id] at result shown
      obtain ⟨ended, kept⟩ := finish_shown saved
      obtain ⟨ended', kept'⟩ := finish_shown saved'
      constructor
      · simp only [ended, ended', result, shown]
        rfl
      · exact kept.trans ((congrArg Prod.snd shown).trans kept'.symm)

theorem allSaved_logged :
    AllSaved t.logged files (memory, []) ↔ AllSaved t files memory := by
  let f : (μ × List Call) × List Reply → μ × List Reply := Prod.map Prod.fst id
  have recalls : Measurer.Recalls (Measurer.replied t.logged.measurer) f t.replied.measurer :=
    fun _ _ _ _ => rfl
  have saves : (saveReplied t.logged).Recalls f (saveReplied t) := by
    intro p
    have stored := save_recalled (t := t.replied) (m := Measurer.replied t.logged.measurer) (f := f)
      (p := p)
    simp only [saveReplied, stored]
    rfl
  have same := runBy_recalled recalls saves files ((memory, []), [])
  have replies : (runReplied t files memory).memory.2 =
      (runReplied t.logged files (memory, [])).memory.2 := by
    simp only [runReplied]
    exact congrArg (fun e => e.memory.2) same
  rw [AllSaved, AllSaved, replies]

theorem blind_logged (blind : t.measurer.Blind) : t.logged.measurer.Blind := by
  rintro name o files files' ⟨memory, calls⟩
  simp only [Task.logged, Measurer.logged, blind name o files files' memory]

/-- A sweep that ends well has written its results down. -/
theorem read_of_run {outcome : Outcome} (ended : (run t files memory).result = .ok outcome) :
    (run t files memory).files.read (t.store.path t.config) =
      .ok (Store.render t.config t.time outcome.results).toUTF8 := by
  obtain ⟨restored, there, p, q, _, _, saved, whole⟩ := run_eq_ok ended
  rw [whole] at ended ⊢
  obtain rfl := Except.ok.inj ended
  obtain ⟨path, files, stored, rfl⟩ := save_eq_ok saved
  exact t.store.read_of_save t.config stored

/-- Two sweeps that differ in their intervals make the same calls and come to the same result, if the
measurer does not look at files and the store takes what they save. When they end well, they leave the
same payload behind, each with its own time. -/
theorem interval_unobservable (t : Task μ) (interval : Nat) (time : String) (files : Tree) (memory : μ)
    (blind : t.measurer.Blind) (saved : AllSaved t files memory)
    (saved' : AllSaved (t.every interval time) files memory) :
    (run (t.every interval time) files memory).result = (run t files memory).result ∧
      (run (t.every interval time).logged files (memory, [])).memory =
        (run t.logged files (memory, [])).memory ∧
      ∀ outcome, (run t files memory).result = .ok outcome →
        ∃ payload : Payload, payload.results = outcome.results ∧
          (run t files memory).files.read (t.store.path t.config) =
            .ok ({ payload with savedAt := some t.time }.encode.pretty.toUTF8) ∧
          (run (t.every interval time) files memory).files.read (t.store.path t.config) =
            .ok ({ payload with savedAt := some time }.encode.pretty.toUTF8) := by
  have logged : (t.every interval time).logged = t.logged.every interval time := rfl
  have same : (run (t.every interval time) files memory).result = (run t files memory).result := by
    rw [run_replied, run_replied t]
    exact (runReplied_shown blind saved saved').1.symm
  refine ⟨same, ?_, ?_⟩
  · rw [logged, run_replied, run_replied t.logged]
    apply Eq.symm
    apply (runReplied_shown (blind_logged blind) (allSaved_logged.mpr saved) _).2
    rw [← logged]
    exact allSaved_logged.mpr saved'
  · intro outcome ended
    exact ⟨⟨Payload.currentVersion, t.config.fingerprint, none, outcome.results⟩, rfl,
      read_of_run ended, read_of_run (t := t.every interval time) (same.trans ended)⟩

theorem interval_unobservable_moody :
    moody.measurer.Blind ∧ AllSaved moody .initial 0 ∧ AllSaved (moody.every 0 "later") .initial 0 ∧
      (run (moody.every 0 "later") .initial 0).result = (run moody .initial 0).result ∧
      (run (moody.every 0 "later").logged .initial (0, [])).memory.2.map Call.name =
        ["m_run_0", "m_run_1"] := by
  have blind : moody.measurer.Blind := fun _ _ _ _ _ => rfl
  have replies : (runReplied moody .initial 0).memory.2 = [.ok (), .ok (), .ok ()] := rfl
  have replies' : (runReplied (moody.every 0 "later") .initial 0).memory.2 = [.ok ()] := rfl
  have saved : AllSaved moody .initial 0 := by simp [AllSaved, replies]
  have saved' : AllSaved (moody.every 0 "later") .initial 0 := by simp [AllSaved, replies']
  obtain ⟨same, calls, _⟩ := interval_unobservable moody 0 "later" .initial 0 blind saved saved'
  refine ⟨blind, saved, saved', same, ?_⟩
  rw [calls]
  decide +kernel

end Run

end Sweep

end GridSweep
