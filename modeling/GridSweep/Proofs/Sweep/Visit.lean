import GridSweep.Sweep.Run

/-!
What a visit does to the progress of a sweep: an objective is skipped, left out, or measured, and what
a measurement came to decides the counts and the records that follow (`visited`, `settled`). A walk
carries on what each visit keeps (`walk_ok`, `walk_result`), and a run is a walk between restoring and
saving, in whatever way it saves (`runBy_of_restore`).
-/
namespace GridSweep.Sweep

variable {μ : Type} {t : Task μ} {name : String} {o : Objective} {p q : Progress μ} {v : Verdict}

namespace Verdict

def isGood : Verdict → Bool
  | good _ => true
  | _ => false

def isFailure : Verdict → Bool
  | failure => true
  | _ => false

/-- The record that is put down: a good one, or that of a failure if failures are recorded. -/
def record? (policy : FailurePolicy) (name : String) (o : Objective) : Verdict → Option RunRecord
  | fatal _ => none
  | good r => some r
  | failure => match policy with
    | .skip => none
    | .record => some (failedRecord name o)

end Verdict

theorem judge_eq_good {answer : Except SweepError RunRecord} {r : RunRecord}
    (h : judge name o answer = .good r) :
    answer = .ok r ∧ answers o r = true ∧ badMetric? r = none := by
  unfold judge at h
  split at h
  · cases h
  · split at h
    · cases h
    · rename_i fits
      split at h
      · cases h
      · rename_i fine
        cases h
        exact ⟨rfl, by simpa using fits, by simpa using fine⟩

/-- What a verdict that does not end the sweep changes: one attempt more, and at most one record, at
the end, which is not saved yet. -/
structure Settled (policy : FailurePolicy) (name : String) (o : Objective) (v : Verdict)
    (p q : Progress μ) : Prop where
  attempt : v.isGood.toNat + v.isFailure.toNat = 1
  measured : q.measured = p.measured + v.isGood.toNat
  failed : q.failed = p.failed + v.isFailure.toNat
  skipped : q.skipped = p.skipped
  remaining : q.remaining = p.remaining
  memory : q.memory = p.memory
  files : q.files = p.files
  records : q.results.records = p.results.records ++ (v.record? policy name o).toList
  unsaved : q.unsaved = p.unsaved + (v.record? policy name o).toList.length

theorem records_of_add {s s' : ResultSet} {r : RunRecord} (h : s.add r = .ok s') :
    s'.records = s.records ++ [r] := by
  unfold ResultSet.add at h
  split at h
  · cases h
  · cases h
    rfl

theorem addRecord_eq_ok {r : RunRecord} (h : addRecord p r = .ok q) :
    ∃ results, p.results.add r = .ok results ∧ q = { p with results, unsaved := p.unsaved + 1 } := by
  unfold addRecord at h
  split at h
  · rename_i results added
    exact ⟨results, added, (Except.ok.inj h).symm⟩
  · cases h

theorem settled (h : settle t name o p v = .ok q) : Settled t.options.policy name o v p q := by
  cases v with
  | fatal e => cases h
  | good r =>
    rw [settle] at h
    cases joined : addRecord p r with
    | error e =>
      rw [joined] at h
      cases h
    | ok p' =>
      rw [joined] at h
      cases h
      obtain ⟨results, added, rfl⟩ := addRecord_eq_ok joined
      exact ⟨rfl, rfl, rfl, rfl, rfl, rfl, rfl, records_of_add added, rfl⟩
  | failure =>
    unfold settle at h
    cases policy : t.options.policy with
    | skip =>
      simp only [policy] at h
      cases h
      exact ⟨rfl, rfl, rfl, rfl, rfl, rfl, rfl, (List.append_nil _).symm, rfl⟩
    | record =>
      simp only [policy] at h
      obtain ⟨results, added, rfl⟩ := addRecord_eq_ok h
      exact ⟨rfl, rfl, rfl, rfl, rfl, rfl, rfl, records_of_add added, rfl⟩

/-- The ways in which a visit can go. The last two call the measurer; the last one may have saved. -/
inductive Visited (t : Task μ) (name : String) (o : Objective) (p : Progress μ) :
    Except SweepError Unit → Progress μ → Prop where
  | skipped (known : p.results.contains o.model o = true) :
      Visited t name o p (.ok ()) { p with skipped := p.skipped + 1 }
  | left (unknown : p.results.contains o.model o = false)
      (beyond : t.options.limit.any (· ≤ p.attempts) = true) :
      Visited t name o p (.ok ()) { p with remaining := p.remaining + 1 }
  | stopped (unknown : p.results.contains o.model o = false)
      (within : t.options.limit.any (· ≤ p.attempts) = false) {e : SweepError}
      (settling : settle t name o (measure t p name o).2
        (judge name o (measure t p name o).1) = .error e) :
      Visited t name o p (.error e) (measure t p name o).2
  | counted (unknown : p.results.contains o.model o = false)
      (within : t.options.limit.any (· ≤ p.attempts) = false) {q : Progress μ}
      (settling : settle t name o (measure t p name o).2
        (judge name o (measure t p name o).1) = .ok q)
      {res : Except SweepError Unit} {q' : Progress μ}
      (saving : (if isDue t q then save t q else (.ok (), q)) = (res, q')) :
      Visited t name o p res q'

theorem save_eq_ok (saved : save t p = (.ok (), q)) :
    ∃ path files, t.store.save t.config t.time p.results p.files = (.ok path, files) ∧
      q = { p with files, unsaved := 0 } := by
  unfold save at saved
  split at saved
  · rename_i path files stored
    exact ⟨path, files, stored, (Prod.mk.inj saved).2.symm⟩
  · cases (Prod.mk.inj saved).1

theorem save_eq_error {e : SweepError} (saved : save t p = (.error e, q)) :
    (∃ cause, e = .checkpoint cause) ∧ ∃ files, q = { p with files } := by
  unfold save at saved
  split at saved
  · cases (Prod.mk.inj saved).1
  · rename_i cause files stored
    obtain ⟨failed, rfl⟩ := Prod.mk.inj saved
    exact ⟨⟨cause.report, (Except.error.inj failed).symm⟩, files, rfl⟩

theorem save_snd (t : Task μ) (p : Progress μ) :
    ∃ files unsaved, (save t p).2 = { p with files, unsaved } := by
  cases saved : save t p with
  | mk res q =>
    cases res with
    | ok u =>
      obtain ⟨_, files, _, rfl⟩ := save_eq_ok saved
      exact ⟨files, 0, rfl⟩
    | error e =>
      obtain ⟨_, files, rfl⟩ := save_eq_error saved
      exact ⟨files, p.unsaved, rfl⟩

theorem saving_snd {res : Except SweepError Unit}
    (saving : (if isDue t p then save t p else (.ok (), p)) = (res, q)) :
    ∃ files unsaved, q = { p with files, unsaved } := by
  split at saving
  · obtain ⟨files, unsaved, saved⟩ := save_snd t p
    rw [saving] at saved
    exact ⟨files, unsaved, saved⟩
  · obtain rfl := (Prod.mk.inj saving).2
    exact ⟨p.files, p.unsaved, rfl⟩

theorem visited (t : Task μ) (name : String) (o : Objective) (p : Progress μ) :
    Visited t name o p (visit t (name, o) p).1 (visit t (name, o) p).2 := by
  by_cases known : p.results.contains o.model o = true
  · simp only [visit, if_pos known]
    exact .skipped known
  by_cases beyond : t.options.limit.any (· ≤ p.attempts) = true
  · simp only [visit, if_neg known, if_pos beyond]
    exact .left (Bool.eq_false_iff.mpr known) beyond
  simp only [visit, if_neg known, if_neg beyond]
  have unknown := Bool.eq_false_iff.mpr known
  have within := Bool.eq_false_iff.mpr beyond
  cases settling : settle t name o (measure t p name o).2
      (judge name o (measure t p name o).1) with
  | error e => exact .stopped unknown within settling
  | ok q => exact .counted unknown within settling rfl

/-- Results only grow: whatever a visit does, the records there were stay, in their order, in front. -/
theorem Visited.grows {res : Except SweepError Unit} (h : Visited t name o p res q) :
    p.results.records <+: q.results.records := by
  cases h with
  | skipped known => exact List.prefix_refl _
  | left unknown beyond => exact List.prefix_refl _
  | stopped unknown within settling => exact List.prefix_refl _
  | counted unknown within settling saving =>
    obtain ⟨files, unsaved, rfl⟩ := saving_snd saving
    simp only [(settled settling).records]
    exact List.prefix_append _ _

end GridSweep.Sweep

namespace GridSweep

variable {α σ τ ε : Type} {step : α → Step σ ε}

theorem walk_image {image : α → Step τ ε} {f : σ → τ}
    (each : ∀ a s, image a (f s) = (step a s).map id f) (l : List α) (s : σ) :
    walk image l (f s) = (walk step l s).map id f := by
  induction l generalizing s with
  | nil => rfl
  | cons a rest ih =>
    rw [walk, walk, each]
    cases stepped : step a s with
    | mk res s' =>
      cases res with
      | ok u => exact ih s'
      | error e => rfl

theorem walk_rel {R : σ → σ → Prop} (refl : ∀ s, R s s) (trans : ∀ {a b c}, R a b → R b c → R a c)
    (each : ∀ a s, R s (step a s).2) (l : List α) (s : σ) : R s (walk step l s).2 := by
  induction l generalizing s with
  | nil => exact refl s
  | cons a rest ih =>
    have first := each a s
    rw [walk]
    split
    · rename_i s' stepped
      rw [stepped] at first
      exact trans first (ih s')
    · rename_i e s' stepped
      rw [stepped] at first
      exact first

/-- What a step carries from the items before it to those up to it, a walk that ends well carries to
all its items. -/
theorem walk_ok {I : List α → σ → Prop}
    (each : ∀ {done a s s'}, I done s → step a s = (.ok (), s') → I (done ++ [a]) s')
    {l done : List α} {s s' : σ} (before : I done s) (walked : walk step l s = (.ok (), s')) :
    I (done ++ l) s' := by
  induction l generalizing done s with
  | nil =>
    cases walked
    rwa [List.append_nil]
  | cons a rest ih =>
    rw [walk] at walked
    split at walked
    · rename_i s₁ stepped
      have after := ih (each before stepped) walked
      rwa [List.append_assoc] at after
    · cases walked

theorem walk_keeps {I : σ → Prop} (each : ∀ {a s s'}, I s → step a s = (.ok (), s') → I s')
    {l : List α} {s s' : σ} (before : I s) (walked : walk step l s = (.ok (), s')) : I s' :=
  @walk_ok α σ ε step (fun _ p => I p) each l [] s s' before walked

/-- What each step on the way makes of a good state, whether it ends well or not, a walk makes of it. -/
theorem walk_result {K : Except ε Unit → σ → Prop} {l : List α} {s : σ}
    (each : ∀ a ∈ l, ∀ {s}, K (.ok ()) s → K (step a s).1 (step a s).2) (before : K (.ok ()) s) :
    K (walk step l s).1 (walk step l s).2 := by
  induction l generalizing s with
  | nil => exact before
  | cons a rest ih =>
    have first := each a List.mem_cons_self before
    rw [walk]
    split
    · rename_i s' stepped
      rw [stepped] at first
      exact ih (fun b hb => each b (List.mem_cons_of_mem a hb)) first
    · rename_i e s' stepped
      rwa [stepped] at first

/-- A walk that fails, fails at a step from where the steps before it have led. -/
theorem walk_error {I : σ → Prop}
    (each : ∀ {a s s'}, I s → step a s = (.ok (), s') → I s') {l : List α} {s s' : σ} {e : ε}
    (before : I s) (walked : walk step l s = (.error e, s')) :
    ∃ a ∈ l, ∃ s₁, I s₁ ∧ step a s₁ = (.error e, s') := by
  induction l generalizing s with
  | nil => cases (Prod.mk.inj walked).1
  | cons a rest ih =>
    rw [walk] at walked
    split at walked
    · rename_i s₁ stepped
      obtain ⟨b, hb, s₂, reached, failed⟩ := ih (each before stepped) walked
      exact ⟨b, List.mem_cons_of_mem a hb, s₂, reached, failed⟩
    · rename_i cause s₁ stepped
      rw [walked] at stepped
      exact ⟨a, List.mem_cons_self, s, before, stepped⟩

theorem Sweep.walk_grows {μ : Type} (t : Task μ) (items : List (String × Objective))
    (p : Progress μ) : p.results.records <+: (walk (visit t) items p).2.results.records :=
  walk_rel (R := fun p q => p.results.records <+: q.results.records)
    (fun _ => List.prefix_refl _) List.IsPrefix.trans
    (fun item p => (visited t item.1 item.2 p).grows) items p

namespace Sweep

variable {μ : Type}

abbrev Saver (μ : Type) := Progress μ → Except SweepError Unit × Progress μ

def visitBy (saver : Saver μ) (t : Task μ) (item : String × Objective) :
    Step (Progress μ) SweepError := fun p =>
  let (name, o) := item
  if p.results.contains o.model o then (.ok (), { p with skipped := p.skipped + 1 })
  else if t.options.limit.any (· ≤ p.attempts) then
    (.ok (), { p with remaining := p.remaining + 1 })
  else
    let (answer, p) := measure t p name o
    match settle t name o p (judge name o answer) with
    | .error e => (.error e, p)
    | .ok p => if isDue t p then saver p else (.ok (), p)

def runBy (saver : Saver μ) (t : Task μ) (files : Files.Tree) (memory : μ) : Ending μ :=
  match restore t files with
  | (.error e, files) => ⟨.error e, files, memory⟩
  | (.ok results, files) =>
    match t.config.domain.walkNamed (visitBy saver t) (.start results files memory) with
    | (.error e, p) => ⟨.error e, p.files, p.memory⟩
    | (.ok (), p) => match saver p with
      | (.error e, p) => ⟨.error e, p.files, p.memory⟩
      | (.ok (), p) => ⟨.ok p.outcome, p.files, p.memory⟩

theorem visitBy_save (t : Task μ) : visitBy (save t) t = visit t := rfl

theorem runBy_save (t : Task μ) (files : Files.Tree) (memory : μ) :
    runBy (save t) t files memory = run t files memory := by
  unfold runBy run
  rfl

variable {t : Task μ} {restored : ResultSet} {files there : Files.Tree} {memory : μ}

/-- What a sweep starts from. If the options ask for it, the checkpoint is discarded first. Then the store
replies with the restored results, or that there is no checkpoint, and so there are no results. -/
structure Begins (t : Task μ) (files : Files.Tree) (restored : ResultSet) (there : Files.Tree) :
    Prop where
  discarded : t.options.clean = true →
    ∃ found, t.store.discard t.config files = (.ok found, there)
  kept : t.options.clean = false → there = files
  reply : t.store.load t.config there = .ok (.restored restored) ∨
    t.store.load t.config there = .ok .noCheckpoint ∧ restored = .empty

theorem restore_of_begins (begins : Begins t files restored there) :
    restore t files = (.ok restored, there) := by
  obtain ⟨discarded, kept, reply⟩ := begins
  cases clean : t.options.clean with
  | false =>
    obtain rfl := kept clean
    simp only [restore, clean, Bool.false_eq_true, if_false]
    rcases reply with loaded | ⟨loaded, rfl⟩ <;> rw [loaded] <;> rfl
  | true =>
    obtain ⟨found, done⟩ := discarded clean
    simp only [restore, clean, if_true, done]
    rcases reply with loaded | ⟨loaded, rfl⟩ <;> rw [loaded] <;> rfl

theorem reply_of_load {state : Checkpoint.State} (loaded : t.store.load t.config there = .ok state) :
    t.store.load t.config there = .ok (.restored state.results) ∨
      t.store.load t.config there = .ok .noCheckpoint ∧ state.results = .empty := by
  cases state with
  | noCheckpoint => exact .inr ⟨loaded, rfl⟩
  | restored results => exact .inl loaded

theorem begins_of_restore (began : restore t files = (.ok restored, there)) :
    Begins t files restored there := by
  unfold restore at began
  simp only at began
  split at began
  · rename_i clean
    split at began
    · rename_i found left discarded
      split at began
      · rename_i state loaded
        obtain ⟨same, rfl⟩ := Prod.mk.inj began
        obtain rfl := Except.ok.inj same
        exact ⟨fun _ => ⟨found, discarded⟩, fun kept => absurd clean (by simp [kept]),
          reply_of_load loaded⟩
      · cases (Prod.mk.inj began).1
    · cases (Prod.mk.inj began).1
  · rename_i unclean
    split at began
    · rename_i state loaded
      obtain ⟨same, rfl⟩ := Prod.mk.inj began
      obtain rfl := Except.ok.inj same
      exact ⟨fun clean => absurd clean unclean, fun _ => rfl, reply_of_load loaded⟩
    · cases (Prod.mk.inj began).1

/-- A sweep restores what the store replies with. -/
theorem begins_iff : Begins t files restored there ↔ restore t files = (.ok restored, there) :=
  ⟨restore_of_begins, begins_of_restore⟩

theorem load_of_restore (began : restore t files = (.ok restored, there)) :
    ∃ state, t.store.load t.config there = .ok state ∧ state.results = restored := by
  rcases (begins_of_restore began).reply with loaded | ⟨loaded, rfl⟩
  · exact ⟨_, loaded, rfl⟩
  · exact ⟨_, loaded, rfl⟩

theorem runBy_of_restore {saver : Saver μ} (began : restore t files = (.ok restored, there)) :
    runBy saver t files memory =
      match walk (visitBy saver t) t.config.domain.named (.start restored there memory) with
      | (.error e, p) => ⟨.error e, p.files, p.memory⟩
      | (.ok (), p) => match saver p with
        | (.error e, p) => ⟨.error e, p.files, p.memory⟩
        | (.ok (), p) => ⟨.ok p.outcome, p.files, p.memory⟩ := by
  have named := t.config.domain.walkNamed_eq (visitBy saver t) (.start restored there memory)
  rw [runBy, began]
  cases walked : walk (visitBy saver t) t.config.domain.named (.start restored there memory) with
  | mk res p =>
    rw [walked] at named
    cases res with
    | error e => simp only [named]
    | ok u =>
      cases saved : saver p with
      | mk res q => cases res <;> simp only [named, saved]

theorem run_of_restore (began : restore t files = (.ok restored, there)) :
    run t files memory =
      match walk (visit t) t.config.domain.named (.start restored there memory) with
      | (.error e, p) => ⟨.error e, p.files, p.memory⟩
      | (.ok (), p) => match save t p with
        | (.error e, p) => ⟨.error e, p.files, p.memory⟩
        | (.ok (), p) => ⟨.ok p.outcome, p.files, p.memory⟩ := by
  rw [← runBy_save, runBy_of_restore began, visitBy_save]

theorem run_eq_ok {outcome : Outcome} (ended : (run t files memory).result = .ok outcome) :
    ∃ restored there p q, restore t files = (.ok restored, there) ∧
      walk (visit t) t.config.domain.named (.start restored there memory) = (.ok (), p) ∧
      save t p = (.ok (), q) ∧ run t files memory = ⟨.ok q.outcome, q.files, q.memory⟩ := by
  cases began : restore t files with
  | mk res there =>
    cases res with
    | error e =>
      rw [run, began] at ended
      cases ended
    | ok restored =>
      rw [run_of_restore began] at ended ⊢
      split at ended
      · cases ended
      · rename_i p walked
        split at ended
        · cases ended
        · rename_i q saved
          exact ⟨restored, there, p, q, rfl, walked, saved, rfl⟩

end Sweep

end GridSweep
