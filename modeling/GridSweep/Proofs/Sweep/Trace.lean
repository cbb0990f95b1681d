import GridSweep.Proofs.Checkpoint.History
import GridSweep.Proofs.Sweep.Accounting
import GridSweep.Proofs.Sweep.Restoring

/-!
What a sweep saves. The trace of a sweep has its calls of the measurer and its saves in their order.
Each save is of the restored records with those that the calls before it have left; a call leaves a
record of its own objective with finite metrics, or none, and a sweep that refuses an answer ends there
with the files as they are (`saves_conform`). Keeping the trace changes nothing else (`run_traced`).
-/
namespace GridSweep

namespace Sweep

open Files (Tree)

variable {μ : Type}

/-- What a sweep does outside: it calls the measurer, with the files as they are then, and it passes
results to the store. -/
inductive Event where
  | called (c : Call) (files : Tree)
  | saved (s : ResultSet)

def Event.record? (policy : FailurePolicy) : Event → Option RunRecord
  | called c _ => c.record? policy
  | saved _ => none

/-- The measurer that also writes its calls into a trace. -/
def Measurer.traced (m : Measurer μ) : Measurer (μ × List Event) :=
  fun name o files (memory, trace) =>
    let (answer, memory) := m name o files memory
    (answer, memory, trace ++ [.called ⟨name, o, answer⟩ files])

def Task.traced (t : Task μ) : Task (μ × List Event) := t.measuredBy (Measurer.traced t.measurer)

def Progress.noted (p : Progress (μ × List Event)) (e : Event) : Progress (μ × List Event) :=
  { p with memory := (p.memory.1, p.memory.2 ++ [e]) }

def saveTraced (t : Task μ) : Saver (μ × List Event) := fun p =>
  save t.traced (p.noted (.saved p.results))

def runTraced (t : Task μ) (files : Tree) (memory : μ) : Ending (μ × List Event) :=
  runBy (saveTraced t) t.traced files (memory, [])

theorem restore_traced (t : Task μ) (files : Tree) : restore t.traced files = restore t files :=
  restore_measuredBy (Measurer.traced t.measurer) files

theorem run_traced (t : Task μ) (files : Tree) (memory : μ) :
    run t files memory =
      ⟨(runTraced t files memory).result, (runTraced t files memory).files,
        (runTraced t files memory).memory.1⟩ := by
  have saves : (saveTraced t).Recalls Prod.fst (save t) := by
    intro p
    exact @save_recalled _ _ t (Measurer.traced t.measurer) Prod.fst (p.noted (.saved p.results))
  rw [← runBy_save]
  exact runBy_recalled (fun _ _ _ _ => rfl) saves files (memory, [])

def recordsAt (t : Task μ) (restored : ResultSet) (trace : List Event) : List RunRecord :=
  restored.records ++ trace.filterMap (Event.record? t.options.policy)

theorem recordsAt_concat (t : Task μ) (restored : ResultSet) (trace : List Event) (e : Event) :
    recordsAt t restored (trace ++ [e]) =
      recordsAt t restored trace ++ (e.record? t.options.policy).toList := by
  cases left : e.record? t.options.policy <;> simp [recordsAt, left]

/-- The record is one of the called objective, with finite metrics: the answer, or the record of a
failure where failures are recorded. -/
structure Call.Leaves (c : Call) (policy : FailurePolicy) (r : RunRecord) : Prop where
  model : r.model = c.objective.model
  point : r.objective.samePoint c.objective = true
  finite : FiniteMetrics r
  origin : c.answer = .ok r ∨ policy = .record ∧ r = failedRecord c.name c.objective

theorem Call.leaves {c : Call} {policy : FailurePolicy} {r : RunRecord}
    (held : c.objective.HeldValues) (left : c.record? policy = some r) : c.Leaves policy r := by
  have finite : FiniteMetrics r := finiteMetrics_of_record left
  unfold Call.record? Call.verdict at left
  cases judged : judge c.name c.objective c.answer with
  | fatal e => simp [judged, Verdict.record?] at left
  | good s =>
    obtain rfl : s = r := by simpa [judged, Verdict.record?] using left
    obtain ⟨answered, fits, _⟩ := judge_eq_good judged
    obtain ⟨model, point⟩ : s.model = c.objective.model ∧
        s.objective.samePoint c.objective = true := by simpa [answers] using fits
    exact ⟨model, point, finite, .inl answered⟩
  | failure =>
    cases policy with
    | skip => simp [judged, Verdict.record?] at left
    | record =>
      obtain rfl : failedRecord c.name c.objective = r := by
        simpa [judged, Verdict.record?] using left
      have self := (Objective.samePoint_iff held held).mpr ⟨rfl, fun _ => rfl⟩
      exact ⟨rfl, self, finite, .inr ⟨rfl, rfl⟩⟩

/-- The answer is a record of another objective, or a finite one under a name that is taken. -/
def Call.Refused (c : Call) (records : List RunRecord) : Prop :=
  ∃ r, c.answer = .ok r ∧
    (answers c.objective r = false ∨ FiniteMetrics r ∧ r.name ∈ records.map RunRecord.name)

theorem not_refused_of_settle {t : Task μ} {name : String} {o : Objective}
    {answer : Except SweepError RunRecord} {p q : Progress μ}
    (settling : settle t name o p (judge name o answer) = .ok q) :
    ¬ Call.Refused ⟨name, o, answer⟩ p.results.records := by
  rintro ⟨r, rfl, wrong⟩
  simp only at wrong
  by_cases fits : answers o r = true
  · obtain ⟨finite, taken⟩ := wrong.resolve_left (by simp [fits])
    have fine : badMetric? r = none := by
      apply List.find?_eq_none.mpr
      intro m hm
      simp [finite m hm]
    have clash : p.results.add r = .error (.duplicateName r.name r.model) :=
      ResultSet.add_of_taken taken
    simp [judge, fits, fine, settle, addRecord, clash, Except.map] at settling
  · simp [judge, fits, settle] at settling

section Trace

variable (t : Task μ) (restored : ResultSet) (there : Tree)

/-- These bytes were in the place of the checkpoint before, or they are the text of a save. -/
def Written (trace : List Event) (bytes : ByteArray) : Prop :=
  there.find? (t.store.place there.home t.config) = some (.file bytes) ∨
    ∃ s, .saved s ∈ trace ∧ bytes = (Store.render t.config t.time s).toUTF8

/-- What is in the place of the checkpoint is known from the trace. -/
def Accounted (trace : List Event) (files : Tree) : Prop :=
  ∀ bytes, files.find? (t.store.place files.home t.config) = some (.file bytes) →
    Written t there trace bytes

/-- A call is of an objective of the sweep, and a save is of the records of the events before it. -/
def Event.Fits (before : List Event) : Event → Prop
  | called c files => c.item ∈ t.config.domain.named ∧ Accounted t there before files
  | saved s => s.records = recordsAt t restored before

def Event.Accepted (before : List Event) : Event → Prop
  | called c _ => ¬ c.Refused (recordsAt t restored before)
  | saved _ => True

structure UnderWay (p : Progress (μ × List Event)) : Prop where
  records : p.results.records = recordsAt t restored p.memory.2
  fits : Throughout (Event.Fits t restored there) p.memory.2
  accepted : Throughout (Event.Accepted t restored) p.memory.2
  content : Accounted t there p.memory.2 p.files

/-- A sweep that has failed did so at a save, with all answers accepted, or at the last call. -/
structure Broken (p : Progress (μ × List Event)) : Prop where
  fits : Throughout (Event.Fits t restored there) p.memory.2
  content : Accounted t there p.memory.2 p.files
  cause : Throughout (Event.Accepted t restored) p.memory.2 ∨
    ∃ before c, p.memory.2 = before ++ [.called c p.files] ∧
      Throughout (Event.Accepted t restored) before

def Standing : Except SweepError Unit → Progress (μ × List Event) → Prop
  | .ok _, p => UnderWay t restored there p
  | .error _, p => Broken t restored there p

end Trace

section Step

variable {t : Task μ} {restored : ResultSet} {there : Tree} {p q : Progress (μ × List Event)}
  {name : String} {o : Objective}

theorem Written.mono {trace more : List Event} {bytes : ByteArray}
    (written : Written t there trace bytes) : Written t there (trace ++ more) bytes := by
  rcases written with before | ⟨s, saved, text⟩
  · exact .inl before
  · exact .inr ⟨s, List.mem_append_left _ saved, text⟩

theorem Accounted.mono {trace more : List Event} {files : Tree}
    (accounted : Accounted t there trace files) : Accounted t there (trace ++ more) files :=
  fun bytes found => (accounted bytes found).mono

theorem underWay_start (t : Task μ) (restored : ResultSet) (there : Tree) (memory : μ) :
    UnderWay t restored there (.start restored there (memory, [])) where
  records := (List.append_nil _).symm
  fits := throughout_nil
  accepted := throughout_nil
  content _ found := .inl found

theorem grows_of_save {μ : Type} {t : Task μ} {p q : Progress μ} {e : SweepError}
    (saved : save t p = (.error e, q)) : Tree.Grows p.files q.files := by
  unfold save at saved
  split at saved
  · cases (Prod.mk.inj saved).1
  · rename_i cause files stored
    obtain rfl := (Prod.mk.inj saved).2
    exact Store.grows_of_save stored

/-- Whether the store takes them or refuses them, results are passed to it as the trace says. -/
theorem UnderWay.save (under : UnderWay t restored there p) :
    Standing t restored there (saveTraced t p).1 (saveTraced t p).2 := by
  have fits : Throughout (Event.Fits t restored there) (p.memory.2 ++ [.saved p.results]) :=
    throughout_concat.mpr ⟨under.fits, under.records⟩
  have accepted : Throughout (Event.Accepted t restored) (p.memory.2 ++ [.saved p.results]) :=
    throughout_concat.mpr ⟨under.accepted, trivial⟩
  have records : p.results.records = recordsAt t restored (p.memory.2 ++ [.saved p.results]) := by
    simpa [recordsAt_concat, Event.record?] using under.records
  unfold saveTraced
  cases saved : Sweep.save t.traced (p.noted (.saved p.results)) with
  | mk res q =>
    cases res with
    | ok u =>
      obtain ⟨path, files, stored, rfl⟩ := save_eq_ok saved
      refine ⟨records, fits, accepted, ?_⟩
      intro bytes found
      obtain ⟨l, proper, resolved, new⟩ :=
        (Tree.read_eq_ok_iff (t.store.plain_path t.config)).mp (t.store.read_of_save t.config stored)
      rw [Tree.resolve_eq_ok resolved] at new
      have text : Files.Entry.file (Store.render t.config t.time p.results).toUTF8 = .file bytes :=
        Option.some.inj (new.symm.trans found)
      exact .inr ⟨p.results, List.mem_append_right _ List.mem_cons_self, (Files.Entry.file.inj text).symm⟩
    | error e =>
      have grows : Tree.Grows p.files q.files := grows_of_save (p := p.noted _) saved
      obtain ⟨_, files, rfl⟩ := save_eq_error saved
      refine ⟨fits, ?_, .inl accepted⟩
      intro bytes found
      have home : files.home = p.files.home := grows.home
      have before := under.content bytes (grows.files _ _ (home ▸ found))
      exact before.mono

theorem UnderWay.call (under : UnderWay t restored there p)
    (listed : (name, o) ∈ t.config.domain.named) :
    Broken t restored there (measure t.traced p name o).2 where
  fits := throughout_concat.mpr ⟨under.fits, listed, under.content⟩
  content := under.content.mono
  cause := .inr ⟨p.memory.2, _, rfl, under.accepted⟩

theorem UnderWay.settle (under : UnderWay t restored there p)
    (listed : (name, o) ∈ t.config.domain.named)
    (settling : Sweep.settle t.traced name o (measure t.traced p name o).2
      (judge name o (measure t.traced p name o).1) = .ok q) : UnderWay t restored there q := by
  have step := settled settling
  have called := under.call listed
  let c : Call := ⟨name, o, (measure t.traced p name o).1⟩
  have trace : q.memory.2 = p.memory.2 ++ [.called c p.files] := congrArg Prod.snd step.memory
  have files : q.files = p.files := step.files
  have records : q.results.records =
      p.results.records ++ (c.record? t.options.policy).toList := step.records
  have accepted : ¬ c.Refused p.results.records :=
    not_refused_of_settle (p := (measure t.traced p name o).2) settling
  constructor
  · rw [records, trace, recordsAt_concat, under.records]
    rfl
  · rw [step.memory]
    exact called.fits
  · rw [trace]
    refine throughout_concat.mpr ⟨under.accepted, ?_⟩
    unfold Event.Accepted
    rwa [← under.records]
  · rw [trace, files]
    exact under.content.mono

/-- One visit of a sweep under way leaves it under way, or has broken it. -/
theorem UnderWay.visit {item : String × Objective} (under : UnderWay t restored there p)
    (listed : item ∈ t.config.domain.named) :
    Standing t restored there (visitBy (saveTraced t) t.traced item p).1
      (visitBy (saveTraced t) t.traced item p).2 := by
  obtain ⟨name, o⟩ := item
  by_cases known : p.results.contains o.model o = true
  · simp only [visitBy, if_pos known]
    exact ⟨under.records, under.fits, under.accepted, under.content⟩
  by_cases beyond : t.traced.options.limit.any (· ≤ p.attempts) = true
  · simp only [visitBy, if_neg known, if_pos beyond]
    exact ⟨under.records, under.fits, under.accepted, under.content⟩
  simp only [visitBy, if_neg known, if_neg beyond]
  cases settling : Sweep.settle t.traced name o (measure t.traced p name o).2
      (judge name o (measure t.traced p name o).1) with
  | error e => exact under.call listed
  | ok q =>
    have further := under.settle listed settling
    simp only
    split
    · exact further.save
    · exact further

end Step

section Run

variable {t : Task μ} {restored : ResultSet} {there files : Tree} {memory : μ}

/-- What the trace of a run says, from what it has restored and the files then. -/
structure Traced (t : Task μ) (restored : ResultSet) (there : Tree)
    (ending : Ending (μ × List Event)) : Prop where
  saves : ∀ before s after, ending.memory.2 = before ++ .saved s :: after →
    s.names.Nodup ∧ ∃ new, s.records = restored.records ++ new ∧
      ∀ r ∈ new, ∃ c files, .called c files ∈ before ∧ c.item ∈ t.config.domain.named ∧
        c.Leaves t.options.policy r
  /-- A call with an answer that is refused is the last event, and the files stay as they are. -/
  refused : ∀ before c files after, ending.memory.2 = before ++ .called c files :: after →
    c.Refused (recordsAt t restored before) →
      after = [] ∧ ending.files = files ∧ ∃ e, ending.result = .error e
  content : ∀ bytes, ending.files.read (t.store.path t.config) = .ok bytes →
    Written t there ending.memory.2 bytes
  contentAt : ∀ before c files after, ending.memory.2 = before ++ .called c files :: after →
    ∀ bytes, files.read (t.store.path t.config) = .ok bytes → Written t there before bytes

theorem Accounted.read {trace : List Event} (accounted : Accounted t there trace files)
    {bytes : ByteArray} (read : files.read (t.store.path t.config) = .ok bytes) :
    Written t there trace bytes := by
  obtain ⟨l, proper, resolved, found⟩ :=
    (Tree.read_eq_ok_iff (t.store.plain_path t.config)).mp read
  rw [Tree.resolve_eq_ok resolved] at found
  exact accounted bytes found

theorem saves_of_fits {trace : List Event} (fits : Throughout (Event.Fits t restored there) trace)
    (held : ∀ item ∈ t.config.domain.named, item.2.HeldValues) {before : List Event} {s : ResultSet}
    {after : List Event} (split : trace = before ++ .saved s :: after) :
    s.names.Nodup ∧ ∃ new, s.records = restored.records ++ new ∧
      ∀ r ∈ new, ∃ c files, .called c files ∈ before ∧ c.item ∈ t.config.domain.named ∧
        c.Leaves t.options.policy r := by
  refine ⟨s.distinct, _, fits before (.saved s) after split, ?_⟩
  intro r hr
  obtain ⟨e, he, left⟩ := List.mem_filterMap.mp hr
  cases e with
  | saved s => simp [Event.record?] at left
  | called c files =>
    obtain ⟨first, second, early⟩ := List.append_of_mem he
    obtain ⟨listed, _⟩ := fits first (.called c files) (second ++ .saved s :: after)
      (by simp [split, early])
    exact ⟨c, files, he, listed, c.leaves (held c.item listed) left⟩

/-- An answer that was refused has ended the sweep: those before were accepted. -/
theorem Broken.refused {p : Progress (μ × List Event)} (broken : Broken t restored there p)
    {before : List Event} {c : Call} {seen : Tree} {after : List Event}
    (split : p.memory.2 = before ++ .called c seen :: after)
    (refused : c.Refused (recordsAt t restored before)) : after = [] ∧ p.files = seen := by
  rcases broken.cause with accepted | ⟨early, last, trace, accepted⟩
  · exact absurd refused (accepted before (.called c seen) after split)
  · have upTo : before ++ [.called c seen] <+: early ++ [.called last p.files] :=
      ⟨after, by simp [← trace, split]⟩
    rcases List.prefix_concat_iff.mp upTo with whole | ⟨later, earlier⟩
    · rw [trace, ← whole] at split
      obtain ⟨_, same⟩ := List.append_inj' whole rfl
      injection same with same
      injection same with _ files
      exact ⟨by simpa using split, files.symm⟩
    · exact absurd refused (accepted before (.called c seen) later (by simp [← earlier]))

theorem Broken.traced (held : ∀ item ∈ t.config.domain.named, item.2.HeldValues)
    {p : Progress (μ × List Event)} (broken : Broken t restored there p) (e : SweepError) :
    Traced t restored there ⟨.error e, p.files, p.memory⟩ where
  saves _ _ _ split := saves_of_fits broken.fits held split
  refused _ _ _ _ split refused := by
    obtain ⟨last, files⟩ := broken.refused split refused
    exact ⟨last, files, e, rfl⟩
  content _ read := broken.content.read read
  contentAt before c files after split _ read :=
    (broken.fits before (.called c files) after split).2.read read

theorem UnderWay.traced (held : ∀ item ∈ t.config.domain.named, item.2.HeldValues)
    {p : Progress (μ × List Event)} (under : UnderWay t restored there p) (outcome : Outcome) :
    Traced t restored there ⟨.ok outcome, p.files, p.memory⟩ where
  saves _ _ _ split := saves_of_fits under.fits held split
  refused before c files after split refused :=
    absurd refused (under.accepted before (.called c files) after split)
  content _ read := under.content.read read
  contentAt before c files after split _ read :=
    (under.fits before (.called c files) after split).2.read read

theorem traced_run (held : ∀ item ∈ t.config.domain.named, item.2.HeldValues)
    (began : restore t files = (.ok restored, there)) :
    Traced t restored there (runTraced t files memory) := by
  have began' : restore t.traced files = (.ok restored, there) :=
    (restore_traced t files).trans began
  let start : Progress (μ × List Event) := .start restored there (memory, [])
  have standing : Standing t restored there
      (walk (visitBy (saveTraced t) t.traced) t.traced.config.domain.named start).1
      (walk (visitBy (saveTraced t) t.traced) t.traced.config.domain.named start).2 :=
    walk_result (K := Standing t restored there) (fun _ listed _ under => UnderWay.visit under listed)
      (underWay_start t restored there memory)
  rw [runTraced, runBy_of_restore began']
  split
  · rename_i e p walked
    rw [walked] at standing
    exact Broken.traced held standing e
  · rename_i p walked
    rw [walked] at standing
    have ended := UnderWay.save standing
    split
    · rename_i e q saved
      rw [saved] at ended
      exact Broken.traced held ended e
    · rename_i q saved
      rw [saved] at ended
      exact UnderWay.traced held ended q.outcome

/-- Whatever the measurer answers and however the sweep ends, only conforming records are ever saved: the
trace of the run, which has every save, says so, beside the records that the sweep has restored. A sweep that
cannot begin neither saves nor calls. -/
theorem saves_conform (t : Task μ) (files : Tree) (memory : μ)
    (held : ∀ item ∈ t.config.domain.named, item.2.HeldValues) :
    ∃ trace, runTraced t files memory =
        ⟨(run t files memory).result, (run t files memory).files,
          ((run t files memory).memory, trace)⟩ ∧
      ((¬ ∃ restored there, Begins t files restored there) → trace = []) ∧
      ∀ restored there, Begins t files restored there →
        Traced t restored there (runTraced t files memory) := by
  refine ⟨(runTraced t files memory).memory.2, ?_, ?_, ?_⟩
  · rw [run_traced]
  · intro refused
    rw [runTraced, runBy, restore_traced]
    split
    · rfl
    · rename_i restored there begun
      exact absurd ⟨restored, there, begins_of_restore begun⟩ refused
  · intro restored there begins
    exact traced_run held (restore_of_begins begins)

end Run

/-- A sweep with failures on record. The second answer has a metric that is no number, and the third
one comes under a name that was restored. -/
def unruly : Task Nat where
  config := fourfold
  store := ⟨"checkpoints"⟩
  options := ⟨false, 1, .record, none⟩
  time := "now"
  measurer name o _ calls :=
    (.ok (.of (if calls = 2 then "m_run_0" else name) o
      (if calls = 1 then SortedTable.empty.insert "time" (.notANumber false) else .empty)), calls + 1)

theorem held_unruly : ∀ item ∈ unruly.config.domain.named, item.2.HeldValues := by
  intro item listed e he
  change item ∈ [_, _, _, _] at listed
  simp only [List.mem_cons, List.not_mem_nil, or_false] at listed
  rcases listed with rfl | rfl | rfl | rfl <;> obtain rfl := List.mem_singleton.mp he
  · exact Json.held_num (n := .int 1) ⟨by decide, by decide⟩
  · exact Json.held_num (n := .int 2) ⟨by decide, by decide⟩
  · exact Json.held_num (n := .int 3) ⟨by decide, by decide⟩
  · exact Json.held_num (n := .int 4) ⟨by decide, by decide⟩

/-- The restored record stands before those of the first two calls; the third call ends the sweep. -/
theorem saves_conform_unruly :
    (∀ item ∈ unruly.config.domain.named, item.2.HeldValues) ∧
    Begins unruly firstFiles firstResults firstFiles ∧
    (∃ early s c seen, (runTraced unruly firstFiles 0).memory.2 = early ++ [.saved s, .called c seen] ∧
      early.length = 3 ∧ s.names = ["m_run_0", "m_run_1", "m_run_2"]) ∧
    Traced unruly firstResults firstFiles (runTraced unruly firstFiles 0) := by
  have begins : Begins unruly firstFiles firstResults firstFiles :=
    ⟨nofun, fun _ => rfl, .inl load_firstFiles⟩
  have began : restore unruly.traced firstFiles = (.ok firstResults, firstFiles) :=
    (restore_traced unruly firstFiles).trans (restore_of_begins begins)
  obtain ⟨_, _, _, traced⟩ := saves_conform unruly firstFiles 0 held_unruly
  refine ⟨held_unruly, begins, ?_, traced firstResults firstFiles begins⟩
  rw [runTraced, runBy_of_restore began]
  exact ⟨[_, _, _], _, _, _, rfl, rfl, rfl⟩

end Sweep

end GridSweep
