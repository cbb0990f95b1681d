import GridSweep.Proofs.Checkpoint.RoundTrip
import GridSweep.Proofs.Grid.Named
import GridSweep.Proofs.Sweep.Prefix

/-!
Resuming a sweep. Invocations on one configuration may stop at their limits or be killed while they
measure; whatever is on disk then are the results of a sweep through some of the objectives, so a last
invocation that goes through all of them ends like a single one (`Campaign.resume_equivalence`).
-/
namespace GridSweep.Sweep

open Files

/-- The measurer of a pure measurement. It remembers the files as they were at each of its calls. -/
def watched (mu : PureMeasure) : Measurer (List Tree) := fun name o files seen =>
  (mu.answer name o, seen ++ [files])

structure Campaign where
  config : Config
  store : Store
  policy : FailurePolicy
  measure : PureMeasure

/-- One start of the sweep, without discarding the checkpoint. It is killed at the call of the measurer
with the number `killedAt`, if it comes so far. -/
structure Invocation where
  interval : Nat
  limit : Option Nat
  time : String
  killedAt : Option Nat

namespace Campaign

variable (g : Campaign)

def task (i : Invocation) : Task (List Tree) :=
  ⟨g.config, g.store, ⟨false, i.interval, g.policy, i.limit⟩, i.time, watched g.measure⟩

def ending (i : Invocation) (files : Tree) : Ending (List Tree) := run (g.task i) files []

/-- The files at the moment at which the invocation is killed; none when it is not. -/
def killed? (i : Invocation) (files : Tree) : Option Tree :=
  i.killedAt.bind fun call => (g.ending i files).memory[call]?

def leaves (files : Tree) (i : Invocation) : Tree :=
  (g.killed? i files).getD (g.ending i files).files

def after (start : Tree) (invocations : List Invocation) : Tree := invocations.foldl g.leaves start

def stage (n : Nat) : List RunRecord :=
  recordsOf g.measure g.policy (g.config.domain.named.take n)

/-- What is assumed of the declarations and the measurements: values are such as JSON libraries hold
and nest no deeper than texts may, and floating-point numbers are read back from their texts. -/
structure Sound : Prop where
  declared : g.config.domain.Declared
  held : ∀ m ∈ g.config.domain.models.entries, ∀ p ∈ m.2.entries, ∀ j ∈ p.2.candidates, j.Held
  shallow : ∀ m ∈ g.config.domain.models.entries, ∀ p ∈ m.2.entries, ∀ j ∈ p.2.candidates,
    j.depth ≤ 122
  declaredFloats : ∀ x, Number.float x ∈ g.config.domain.encode.numbers → x.ReadsBack
  measuredFloats : ∀ item ∈ g.config.domain.named, ∀ metrics,
    g.measure item.1 item.2 = .ok metrics →
      ∀ e ∈ metrics.entries, e.2.isFinite = true → e.2.ReadsBack

/-- The checkpoint can be written, and what is in it stands where a sweep through some of the
objectives stands. -/
def OnDisk (files : Tree) : Prop :=
  g.store.Writable g.config files ∧
    ∃ state, g.store.load g.config files = .ok state ∧ ∃ n, Stands state.results (g.stage n)

/-- What holds of a running invocation before its `j`-th objective: its results are those of some of
the objectives, the first `j` among them unless its limit is reached, and so it was on disk at every
call of the measurer. -/
structure Along (limit : Option Nat) (j : Nat) (p : Progress (List Tree)) : Prop where
  results : ∃ n, Stands p.results (g.stage n) ∧ (j ≤ n ∨ limit.any (· ≤ p.attempts) = true)
  files : g.OnDisk p.files
  memory : ∀ files ∈ p.memory, g.OnDisk files

end Campaign

end GridSweep.Sweep

namespace GridSweep

open Files Json

theorem Domain.mem_numbers_of_kind {d : Domain} {m : String × Parameters} (hm : m ∈ d.models.entries)
    {p : String × ParameterKind} (hp : p ∈ m.2.entries) {n : Number}
    (h : n ∈ p.2.encode.numbers) : n ∈ d.encode.numbers := by
  have parameters : n ∈ (encodeParameters m.2).numbers := mem_numbers_ofEntries.mpr ⟨p, hp, h⟩
  have models : n ∈ (ofEntries encodeParameters d.models.entries).numbers :=
    mem_numbers_ofEntries.mpr ⟨m, hm, parameters⟩
  simpa [encode, numbers, memberNumbers] using models

theorem ParameterKind.mem_numbers_of_candidate {kind : ParameterKind} {j : Json}
    (hj : j ∈ kind.candidates) {n : Number} (h : n ∈ j.numbers) : n ∈ kind.encode.numbers := by
  cases kind with
  | fixed value =>
    obtain rfl := List.mem_singleton.mp hj
    simpa [encode, numbers, memberNumbers] using h
  | categorical values =>
    have items : n ∈ itemNumbers values := mem_itemNumbers.mpr ⟨j, hj, h⟩
    simpa [encode, numbers, memberNumbers] using items
  | distribution d => cases hj

theorem Domain.Declared.mem_numbers {d : Domain} (declared : d.Declared) {item : String × Objective}
    (h : item ∈ d.named) {n : Number} (hn : n ∈ item.2.encode.numbers) : n ∈ d.encode.numbers := by
  obtain ⟨m, hm, values, distributions⟩ := declared.mem_named h
  rcases Objective.mem_numbers_encode.mp hn with ⟨e, he, hn⟩ | ⟨e, he, hn⟩
  · obtain ⟨p, hp, candidate⟩ := values e he
    exact mem_numbers_of_kind hm hp (ParameterKind.mem_numbers_of_candidate candidate hn)
  · apply mem_numbers_of_kind hm (distributions e he)
    simpa [ParameterKind.encode, numbers, memberNumbers] using hn

theorem Domain.Declared.finite {d : Domain} (declared : d.Declared) {item : String × Objective}
    (h : item ∈ d.named) : ∀ e ∈ item.2.distributions.entries,
      e.2.mean.isFinite = true ∧ e.2.stddev.isFinite = true := by
  obtain ⟨m, hm, -, distributions⟩ := declared.mem_named h
  intro e he
  have valid : e.2.isSound = true := declared.valid m hm _ (distributions e he)
  rw [Distribution.isSound, Bool.and_eq_true, Bool.and_eq_true] at valid
  exact valid.1

namespace Sweep.Campaign

variable {g : Campaign}

theorem Sound.keeps (sound : g.Sound) {item : String × Objective}
    (h : item ∈ g.config.domain.named) {metrics : SortedTable Double}
    (kept : ∀ e ∈ metrics.entries, e.2.ReadsBack) :
    (RunRecord.of item.1 item.2 metrics).Storable ∧ (RunRecord.of item.1 item.2 metrics).ReadsBack := by
  obtain ⟨m, hm, values, -⟩ := sound.declared.mem_named h
  refine ⟨⟨?_, ?_, sound.declared.finite h, fun e he => (kept e he).isFinite⟩, fun x hx => ?_⟩
  · intro e he
    obtain ⟨p, hp, candidate⟩ := values e he
    exact sound.held m hm p hp e.2 candidate
  · intro e he
    obtain ⟨p, hp, candidate⟩ := values e he
    exact sound.shallow m hm p hp e.2 candidate
  · rcases RunRecord.mem_numbers_encode.mp hx with hx | ⟨e, he, hx⟩
    · exact sound.declaredFloats x (sound.declared.mem_numbers h hx)
    · rw [eq_of_mem_ofDouble hx]
      exact kept e he

theorem Sound.stage (sound : g.Sound) (n : Nat) {r : RunRecord} (h : r ∈ g.stage n) :
    r.Storable ∧ r.ReadsBack := by
  obtain ⟨item, taken, added⟩ := mem_recordsOf h
  have listed := List.mem_of_mem_take taken
  obtain ⟨metrics, rfl, origin⟩ := addition_eq_some added
  refine sound.keeps listed fun e he => ?_
  rcases origin with ⟨measured, finite⟩ | rfl
  · exact sound.measuredFloats item listed metrics measured e he (finite e he)
  · simp only [SortedTable.mem_insert_empty.mp he, Double.readsBack_one]

theorem Sound.samePoint (sound : g.Sound) {item : String × Objective}
    (h : item ∈ g.config.domain.named) : item.2.samePoint item.2 = true := by
  obtain ⟨m, hm, values, _⟩ := sound.declared.mem_named h
  rw [Objective.samePoint, beq_self_eq_true, Bool.true_and]
  refine Table.agrees_of_sorted rfl fun e he => e.2.same_refl ?_
  obtain ⟨p, hp, candidate⟩ := values e he
  exact (sound.held m hm p hp e.2 candidate).numbers

theorem Sound.stands (sound : g.Sound) {n : Nat} {s : ResultSet} (h : Stands s (g.stage n)) :
    (∀ r ∈ s.records, r.Storable) ∧ ∀ r ∈ s.records, r.ReadsBack := by
  have known {r : RunRecord} (hr : r ∈ s.records) : ∃ t ∈ g.stage n, t.sorted = r.sorted := by
    have moved : r.sorted ∈ (g.stage n).map RunRecord.sorted := h ▸ List.mem_map_of_mem hr
    exact List.mem_map.mp moved
  refine ⟨fun r hr => ?_, fun r hr => ?_⟩
  · obtain ⟨t, ht, same⟩ := known hr
    exact (sound.stage n ht).1.of_sorted same.symm
  · obtain ⟨t, ht, same⟩ := known hr
    exact (sound.stage n ht).2.of_sorted same.symm

theorem Sound.save (sound : g.Sound) {i : Invocation} {p : Progress (List Tree)} {n : Nat}
    (stands : Stands p.results (g.stage n)) (disk : g.OnDisk p.files) :
    ∃ files, Sweep.save (g.task i) p = (.ok (), { p with files, unsaved := 0 }) ∧
      g.OnDisk files := by
  obtain ⟨storable, back⟩ := sound.stands stands
  obtain ⟨files, saved, writable, loaded⟩ :=
    @Store.Writable.save _ _ _ disk.1 i.time _ storable back
  refine ⟨files, ?_, writable, .restored p.results.sorted, loaded, n, ?_⟩
  · rw [Sweep.save]
    simp only [task, saved]
  · show p.results.sorted.records.map RunRecord.sorted = _
    rw [← stands]
    exact congrArg ResultSet.records p.results.sorted_sorted

/-- After a measurement the results are saved if that is due; either way the invocation goes on. -/
theorem Sound.settled (sound : g.Sound) {i : Invocation} {q : Progress (List Tree)} {j n : Nat}
    (stands : Stands q.results (g.stage n)) (far : j ≤ n) (disk : g.OnDisk q.files)
    (memory : ∀ files ∈ q.memory, g.OnDisk files) :
    ∃ q', (if isDue (g.task i) q then Sweep.save (g.task i) q else (.ok (), q)) = (.ok (), q') ∧
      g.Along i.limit j q' := by
  split
  · obtain ⟨files, saved, disk'⟩ := sound.save (i := i) stands disk
    exact ⟨_, saved, ⟨n, stands, .inl far⟩, disk', memory⟩
  · exact ⟨q, rfl, ⟨n, stands, .inl far⟩, disk, memory⟩

theorem stage_succ {j : Nat} {item : String × Objective}
    (at_ : g.config.domain.named[j]? = some item) :
    g.stage (j + 1) = extend g.measure g.policy (g.stage j) item := by
  rw [stage, stage, List.take_add_one, at_, Option.toList_some, recordsOf_append_singleton]

theorem take_next_le {j n : Nat} {item : String × Objective}
    (at_ : g.config.domain.named[j]? = some item) (h : j < n) :
    g.config.domain.named.take j ++ [item] <+: g.config.domain.named.take n := by
  have first : g.config.domain.named.take j ++ [item] = g.config.domain.named.take (j + 1) := by
    rw [List.take_add_one, at_, Option.toList_some]
  rw [first]
  exact List.take_prefix_take_left h

theorem name_fresh {j : Nat} {item : String × Objective}
    (at_ : g.config.domain.named[j]? = some item) :
    item.1 ∉ (g.stage j).map RunRecord.name := by
  intro taken
  obtain ⟨r, hr, same⟩ := List.mem_map.mp taken
  obtain ⟨before, earlier, added⟩ := mem_recordsOf hr
  have distinct := g.config.domain.nodup_names
  obtain ⟨inside, rfl⟩ := List.getElem?_eq_some_iff.mp at_
  rw [← List.take_append_drop j g.config.domain.named, List.map_append, List.nodup_append] at distinct
  refine distinct.2.2 _ (List.mem_map_of_mem earlier) _
    (List.mem_map_of_mem (List.mem_drop_iff_getElem.mpr ⟨0, by omega, rfl⟩)) ?_
  rw [← name_of_addition added, same]
  rfl

theorem stage_of_covered {j : Nat} {item : String × Objective}
    (at_ : g.config.domain.named[j]? = some item) (covered : isCovered (g.stage j) item.2 = true) :
    g.stage (j + 1) = g.stage j := by
  rw [stage_succ at_, extend, if_pos covered]

theorem stage_of_uncovered {j : Nat} {item : String × Objective}
    (at_ : g.config.domain.named[j]? = some item) (open_ : isCovered (g.stage j) item.2 = false) :
    g.stage (j + 1) = g.stage j ++ (addition g.measure g.policy item).toList := by
  rw [stage_succ at_, extend, open_]
  rfl

theorem Along.skip {i : Invocation} {p : Progress (List Tree)} {j : Nat} {item : String × Objective}
    (at_ : g.config.domain.named[j]? = some item) (along : g.Along i.limit j p)
    (known : p.results.contains item.2.model item.2 = true) :
    g.Along i.limit (j + 1) { p with skipped := p.skipped + 1 } := by
  obtain ⟨⟨n, stands, reach⟩, disk, memory⟩ := along
  refine ⟨?_, disk, memory⟩
  rw [stands.contains] at known
  rcases reach with near | reached
  · rcases Nat.lt_or_eq_of_le near with past | rfl
    · exact ⟨n, stands, .inl past⟩
    · exact ⟨j + 1, (stage_of_covered at_ known).symm ▸ stands, .inl (Nat.le_refl _)⟩
  · exact ⟨n, stands, .inr reached⟩

/-- Measuring an objective that is not on record brings the results on by one objective, or leaves
them where they are when the objective was tried before. -/
theorem Sound.measured (sound : g.Sound) {i : Invocation} {p : Progress (List Tree)} {j n : Nat}
    {name : String} {o : Objective} (at_ : g.config.domain.named[j]? = some (name, o))
    (stands : Stands p.results (g.stage n)) (near : j ≤ n)
    (open_ : isCovered (g.stage n) o = false) :
    ∃ q n', settle (g.task i) name o p (judge name o (g.measure.answer name o)) = .ok q ∧
      Stands q.results (g.stage n') ∧ j + 1 ≤ n' ∧ q.files = p.files ∧ q.memory = p.memory := by
  have listed : (name, o) ∈ g.config.domain.named := List.mem_of_getElem? at_
  rcases Nat.lt_or_eq_of_le near with past | rfl
  · have none := addition_of_uncovered (take_next_le at_ past) open_
    exact ⟨_, n, settle_of_none (t := g.task i) (sound.samePoint listed) none, stands, past, rfl, rfl⟩
  · have grown := stage_of_uncovered at_ open_
    cases added : addition g.measure g.policy (name, o) with
    | none =>
      rw [added, Option.toList_none, List.append_nil] at grown
      exact ⟨_, j + 1, settle_of_none (t := g.task i) (sound.samePoint listed) added,
        grown.symm ▸ stands, Nat.le_refl _, rfl, rfl⟩
    | some r =>
      have fresh := name_fresh at_
      rw [← name_of_addition added] at fresh
      obtain ⟨results, joins, further⟩ := stands.add fresh
      obtain ⟨q, settled, same, files, memory⟩ := settle_of_some (t := g.task i) added joins
      rw [added, Option.toList_some] at grown
      exact ⟨q, j + 1, settled, by rw [same, grown]; exact further, Nat.le_refl _, files, memory⟩

/-- No visit fails, and each brings the invocation past one more objective. -/
theorem Sound.visit (sound : g.Sound) {i : Invocation} {p : Progress (List Tree)} {j : Nat}
    {item : String × Objective} (at_ : g.config.domain.named[j]? = some item)
    (along : g.Along i.limit j p) :
    ∃ q, Sweep.visit (g.task i) item p = (.ok (), q) ∧ g.Along i.limit (j + 1) q := by
  obtain ⟨name, o⟩ := item
  by_cases known : p.results.contains o.model o = true
  · exact ⟨_, if_pos known, along.skip at_ known⟩
  obtain ⟨⟨n, stands, reach⟩, disk, memory⟩ := along
  by_cases limited : i.limit.any (· ≤ p.attempts) = true
  · refine ⟨{ p with remaining := p.remaining + 1 }, ?_, ⟨n, stands, .inr limited⟩, disk, memory⟩
    exact (if_neg known).trans (if_pos limited)
  have open_ : isCovered (g.stage n) o = false := by
    rw [← stands.contains]
    exact Bool.eq_false_iff.mpr known
  -- From here on the measurer is called, and its memory holds the files as they are.
  obtain ⟨q, n', settled, stands', far, files, seen⟩ :=
    sound.measured (i := i) (p := { p with memory := p.memory ++ [p.files] }) at_ stands
      (reach.resolve_right limited) open_
  have disk' : g.OnDisk q.files := files ▸ disk
  have memory' : ∀ files ∈ q.memory, g.OnDisk files := by
    rw [seen]
    intro files hf
    rcases List.mem_append.mp hf with hf | hf
    · exact memory files hf
    · exact List.mem_singleton.mp hf ▸ disk
  obtain ⟨q', saved, along⟩ := sound.settled (i := i) stands' far disk' memory'
  refine ⟨q', ?_, along⟩
  have within : ¬ (g.task i).options.limit.any (· ≤ p.attempts) = true := limited
  have called : Sweep.measure (g.task i) p name o =
      (g.measure.answer name o, { p with memory := p.memory ++ [p.files] }) := rfl
  rw [← saved]
  unfold Sweep.visit
  simp only [if_neg known, if_neg within, called, settled]

theorem Sound.walk (sound : g.Sound) {i : Invocation} (items : List (String × Objective))
    {done : List (String × Objective)} (split : g.config.domain.named = done ++ items)
    {p : Progress (List Tree)} (along : g.Along i.limit done.length p) :
    ∃ q, GridSweep.walk (Sweep.visit (g.task i)) items p = (.ok (), q) ∧
      g.Along i.limit g.config.domain.named.length q := by
  induction items generalizing done p with
  | nil =>
    rw [List.append_nil] at split
    exact ⟨p, rfl, split ▸ along⟩
  | cons item rest ih =>
    have at_ : g.config.domain.named[done.length]? = some item := by
      rw [split, List.getElem?_append_right (Nat.le_refl _), Nat.sub_self]
      rfl
    obtain ⟨q, visited, along⟩ := sound.visit at_ along
    have further : g.config.domain.named = (done ++ [item]) ++ rest := by
      rw [split, List.append_assoc]
      rfl
    obtain ⟨q', walked, along⟩ := ih further (p := q) (by rwa [List.length_append])
    refine ⟨q', ?_, along⟩
    rw [GridSweep.walk, visited]
    exact walked

/-- An invocation that is left alone ends well. What it leaves on disk, and what was on disk whenever
it measured, is the state of a sweep through some of the objectives; without a limit its results are
those of a sweep through all of them. -/
theorem Sound.ending (sound : g.Sound) (i : Invocation) {files : Tree} (disk : g.OnDisk files) :
    ∃ outcome, (g.ending i files).result = .ok outcome ∧ g.OnDisk (g.ending i files).files ∧
      (∀ seen ∈ (g.ending i files).memory, g.OnDisk seen) ∧
      (i.limit = none →
        Stands outcome.results (g.stage g.config.domain.named.length)) := by
  obtain ⟨writable, state, loaded, n, stands⟩ := disk
  have restored : restore (g.task i) files = (.ok state.results, files) := by
    unfold restore
    simp only [task, Bool.false_eq_true, if_false, loaded]
  have begun : g.Along i.limit 0 (.start state.results files []) :=
    ⟨⟨n, stands, .inl (Nat.zero_le n)⟩, ⟨writable, state, loaded, n, stands⟩, fun _ none => by cases none⟩
  obtain ⟨p, walked, ⟨m, stands', reach⟩, disk', memory⟩ :=
    sound.walk g.config.domain.named (i := i) (List.nil_append _).symm begun
  obtain ⟨files', saved, disk''⟩ := sound.save (i := i) stands' disk'
  have ended : g.ending i files = ⟨.ok p.outcome, files', p.memory⟩ := by
    rw [Campaign.ending, run, restored]
    simp only [Domain.walkNamed_eq]
    rw [show (g.task i).config = g.config from rfl, walked]
    simp only [saved]
    rfl
  refine ⟨p.outcome, by rw [ended], by rw [ended]; exact disk'', by rw [ended]; exact memory, ?_⟩
  intro unlimited
  rw [unlimited] at reach
  have whole : g.stage m = g.stage g.config.domain.named.length := by
    have far : g.config.domain.named.length ≤ m := reach.resolve_right (by simp)
    rw [Campaign.stage, Campaign.stage, List.take_of_length_le far, List.take_length]
  exact whole ▸ stands'

/-- What any invocation leaves, killed or not, is the state of a sweep through some of the
objectives. -/
theorem Sound.leaves (sound : g.Sound) (i : Invocation) {files : Tree} (disk : g.OnDisk files) :
    g.OnDisk (g.leaves files i) := by
  obtain ⟨_, _, disk', memory, _⟩ := sound.ending i disk
  unfold Campaign.leaves
  cases killed : g.killed? i files with
  | none => exact disk'
  | some seen =>
    obtain ⟨call, _, known⟩ := Option.bind_eq_some_iff.mp killed
    exact memory seen (List.mem_of_getElem? known)

theorem Sound.after (sound : g.Sound) (invocations : List Invocation) {start : Tree}
    (disk : g.OnDisk start) : g.OnDisk (g.after start invocations) := by
  induction invocations generalizing start with
  | nil => exact disk
  | cons i rest ih => exact ih (sound.leaves i disk)

/-- Resuming is as good as not having stopped. From files without a checkpoint on which a save
succeeds, in any sequence of invocations, each with its own interval and limit and each killed at any
of its measurements or not at all, those that are not killed end well. An invocation without a limit
that is left alone afterwards has the results of one that is left alone from the start. -/
theorem resume_equivalence (g : Campaign) (sound : g.Sound) (start : Tree)
    (fresh : g.store.load g.config start = .ok .noCheckpoint)
    (writes : ∃ time path files, g.store.save g.config time .empty start = (.ok path, files))
    (invocations : List Invocation) :
    (∀ before i later, invocations = before ++ i :: later →
      g.killed? i (g.after start before) = none →
        ∃ outcome, (g.ending i (g.after start before)).result = .ok outcome) ∧
    ∀ single last : Invocation, single.limit = none → last.limit = none →
      ∃ whole final, (g.ending single start).result = .ok whole ∧
        (g.ending last (g.after start invocations)).result = .ok final ∧
        final.results.same whole.results = true := by
  obtain ⟨time, path, files, saved⟩ := writes
  have disk : g.OnDisk start :=
    ⟨g.store.writable_of_save g.config saved, .noCheckpoint, fresh, 0, rfl⟩
  refine ⟨fun before i later _ _ => ?_, fun single last unlimited unlimited' => ?_⟩
  · obtain ⟨outcome, ended, _⟩ := sound.ending i (sound.after before disk)
    exact ⟨outcome, ended⟩
  · obtain ⟨whole, ended, _, _, results⟩ := sound.ending single disk
    obtain ⟨final, ended', _, _, results'⟩ := sound.ending last (sound.after invocations disk)
    refine ⟨whole, final, ended, ended', ?_⟩
    have storable := (sound.stands (results' unlimited')).1
    refine ResultSet.sameRecords_of_sorted ?_ fun r hr => (storable r hr).finite
    exact (results' unlimited').trans (results unlimited).symm

/-- A sweep over seven objectives that keeps failures on record; every measurement but that of the
second run takes one unit of time. -/
def partlyFailing : Campaign where
  config := ⟨some "demo", .standard, [], .twoModels⟩
  store := ⟨"checkpoints"⟩
  policy := .record
  measure name _ :=
    if name = "m_run_1" then .error (.measurement (.of "measure-exit" "failed" []))
    else .ok (SortedTable.empty.insert "time" .one)

theorem candidate_twoModels {m : String × Parameters} (hm : m ∈ Domain.twoModels.models.entries)
    {p : String × ParameterKind} (hp : p ∈ m.2.entries) {j : Json} (hj : j ∈ p.2.candidates) :
    (∃ i, j = .num (.int i) ∧ Number.Fits i) ∨ ∃ s, j = .str s := by
  change m ∈ [("m", Table.ofList Domain.mixedParameters), ("n", Table.empty)] at hm
  rcases List.mem_pair.mp hm with rfl | rfl
  · change p ∈ [_, _, _] at hp
    simp only [List.mem_cons, List.not_mem_nil, or_false] at hp
    rcases hp with rfl | rfl | rfl
    · rcases List.mem_pair.mp hj with rfl | rfl
      · exact .inl ⟨1, rfl, by decide, by decide⟩
      · exact .inl ⟨2, rfl, by decide, by decide⟩
    · cases hj
    · change j ∈ [_, _, _] at hj
      simp only [List.mem_cons, List.not_mem_nil, or_false] at hj
      rcases hj with rfl | rfl | rfl
      · exact .inr ⟨_, rfl⟩
      · exact .inr ⟨_, rfl⟩
      · exact .inr ⟨_, rfl⟩
  · cases hp

theorem sound_partlyFailing : partlyFailing.Sound where
  declared := Domain.declared_twoModels
  held m hm p hp j hj := by
    rcases candidate_twoModels hm hp hj with ⟨i, rfl, fits⟩ | ⟨s, rfl⟩
    · exact Json.held_num (n := .int i) fits
    · exact ⟨rfl, fun n hn => by cases hn⟩
  shallow m hm p hp j hj := by
    rcases candidate_twoModels hm hp hj with ⟨i, rfl, _⟩ | ⟨s, rfl⟩
    · exact Nat.zero_le _
    · exact Nat.zero_le _
  declaredFloats x hx := by
    have denoted : ∀ n ∈ Domain.twoModels.encode.numbers, n.numeral.number? = some n := by
      decide +kernel
    have finite : ∀ n ∈ Domain.twoModels.encode.numbers, n.toDouble.isFinite = true := by
      decide +kernel
    exact Double.readsBack_of_numeral (finite _ hx) (denoted _ hx)
  measuredFloats item _ metrics measured e he _ := by
    unfold partlyFailing at measured
    simp only at measured
    split at measured
    · cases measured
    · rw [← Except.ok.inj measured] at he
      simp only [SortedTable.mem_insert_empty.mp he, Double.readsBack_one]

/-- Stopped at its limit after two measurements and then killed at its second one, the sweep still ends
like a sweep in one go. -/
theorem resume_equivalence_partlyFailing :
    partlyFailing.store.load partlyFailing.config .initial = .ok .noCheckpoint ∧
    ∃ whole final, (partlyFailing.ending ⟨1, none, "now", none⟩ .initial).result = .ok whole ∧
      (partlyFailing.ending ⟨0, none, "later", none⟩
        (partlyFailing.after .initial [⟨1, some 2, "now", none⟩, ⟨2, none, "then", some 1⟩])).result =
          .ok final ∧
      final.results.same whole.results = true :=
  ⟨rfl, (resume_equivalence partlyFailing sound_partlyFailing .initial rfl
    ⟨"now", "checkpoints/demo.checkpoint.json",
      (partlyFailing.store.save partlyFailing.config "now" .empty .initial).2, rfl⟩
    [⟨1, some 2, "now", none⟩, ⟨2, none, "then", some 1⟩]).2 ⟨1, none, "now", none⟩
      ⟨0, none, "later", none⟩ rfl rfl⟩

end Sweep.Campaign

end GridSweep
