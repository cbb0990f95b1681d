import GridSweep.Proofs.Json.Canonical
import GridSweep.Proofs.Objective
import GridSweep.Proofs.Sweep.Trace
import GridSweep.Proofs.Text.Order
import GridSweep.Sweep.Program

/-!
Programs as measurers. A run of a program, whether it reads its input or not, makes a record just when it
ends well and prints a JSON object with a number under each of its names. Such a record passes the checks of
a sweep: it is one of the requested objective, and its metrics are finite. Any other run makes an error of
measuring, which after an object tells the first name without a number (`Program.answer_exact`).
-/
namespace GridSweep

namespace Number

theorem Held.isFinite_toDouble {n : Number} (held : n.Held) : n.toDouble.isFinite = true := by
  cases n with
  | float x => exact held
  | int i =>
    have tens : Double.mostTens = 308 := by unfold Double.mostTens; rfl
    have few : i.natAbs ≤ Nat.pow 10 Double.mostTens := by
      have bounded : i.natAbs ≤ 0xffffffffffffffff := by
        obtain ⟨low, high⟩ := held
        omega
      rw [tens]
      exact bounded.trans (by decide +kernel)
    -- the sign does not count for the magnitude
    exact (Double.isFinite_ofRatio_iff _ _ Nat.one_pos).mpr
      ((Double.isFinite_ofRatio_iff false _ Nat.one_pos).mp (Double.isFinite_ofNat few))

end Number

namespace Json

theorem eq_num_of_normal {v : Json} {n : Number} (h : v.normal = num n) : v = num n := by
  cases v with
  | num m => exact h
  | null | bool | str | arr | obj => cases h

/-- The names of an object as a table in ascending order, each with its last value. -/
theorem mem_sorted_iff {members : List (String × Json)} {name : String} {v : Json} :
    (name, v) ∈ sorted (normalMembers members) ↔
      ∃ x, (obj members).member? name = some x ∧ x.normal = v := by
  rw [← Option.map_eq_some_iff, ← find?_normalMembers_eq]
  exact ⟨Entries.find?_of_mem (nodup_normalMembers members), Entries.mem_of_find?⟩

/-- A text stands for one value. -/
theorem Stands.unique {bytes : ByteArray} {j k : Json} (first : Stands bytes j)
    (second : Stands bytes k) : j = k := by
  obtain ⟨s, rfl, spells, -⟩ := first
  obtain ⟨t, same, spells', -⟩ := second
  obtain rfl := toUTF8_inj.mp same
  have documents := (ofText_eq_iff.mpr spells).symm.trans (ofText_eq_iff.mpr spells')
  exact ofJson_inj (congrArg Document.root documents)

theorem stands_compact {j : Json} (back : ∀ n ∈ j.numbers, n.ReadsBack) (depth : j.depth < 128) :
    Stands j.compact.toUTF8 j :=
  ⟨j.compact, rfl, ofText_eq_iff.mp (ofText_compact back), depth⟩

theorem numbers_of_member? {members : List (String × Json)} {name : String} {x : Json}
    (found : (obj members).member? name = some x) {n : Number} (hn : n ∈ x.numbers) :
    n ∈ (obj members).numbers :=
  mem_memberNumbers.mpr ⟨(name, x), List.mem_reverse.mp (Entries.mem_of_find? found), hn⟩

end Json

namespace Program

section Metrics

theorem metrics_mapValues (l : List (String × Number)) :
    metrics (Entries.mapValues .num l) = .ok (Entries.mapValues Number.toDouble l) := by
  induction l with
  | nil => rfl
  | cons e rest ih =>
    rw [Entries.mapValues, List.map_cons, metrics, ← Entries.mapValues, ih]
    rfl

theorem metrics_of_bad (l : List (String × Number)) {name : String} {v : Json}
    (bad : ∀ n, v ≠ .num n) (rest : List (String × Json)) :
    metrics (Entries.mapValues .num l ++ (name, v) :: rest) = .error (.notNumber name v) := by
  induction l with
  | nil =>
    cases v with
    | num n => exact absurd rfl (bad n)
    | null | bool | str | arr | obj => rfl
  | cons e l ih =>
    rw [Entries.mapValues, List.map_cons, List.cons_append, metrics, ← Entries.mapValues, ih]
    rfl

/-- Members are all numbers, or they have a first value that is none. -/
theorem numbers_or_bad (members : List (String × Json)) :
    (∃ l, members = Entries.mapValues .num l) ∨
      ∃ l name v rest, members = Entries.mapValues .num l ++ (name, v) :: rest ∧
        ∀ n, v ≠ .num n := by
  induction members with
  | nil => exact .inl ⟨[], rfl⟩
  | cons e members ih =>
    obtain ⟨name, v⟩ := e
    by_cases number : ∃ n, v = .num n
    · obtain ⟨n, rfl⟩ := number
      rcases ih with ⟨l, rfl⟩ | ⟨l, other, x, rest, rfl, bad⟩
      · exact .inl ⟨(name, n) :: l, rfl⟩
      · exact .inr ⟨(name, n) :: l, other, x, rest, rfl, bad⟩
    · exact .inr ⟨[], name, v, members, rfl, fun n same => number ⟨n, same⟩⟩

end Metrics

/-- The last value under each name is a number. -/
def Numeric (members : List (String × Json)) : Prop :=
  ∀ name v, (Json.obj members).member? name = some v → ∃ n, v = .num n

/-- A name whose last value is no number, the first of these names by their bytes. -/
structure FirstBad (members : List (String × Json)) (name : String) (v : Json) : Prop where
  last : (Json.obj members).member? name = some v
  bad : ∀ n, v ≠ .num n
  first : ∀ other x, (Json.obj members).member? other = some x → (∀ n, x ≠ .num n) →
    ¬ Text.bytes other < Text.bytes name

section Members

variable {members : List (String × Json)}

theorem FirstBad.not_numeric {name : String} {v : Json} (first : FirstBad members name v) :
    ¬ Numeric members := fun numeric =>
  (numeric name v first.last).elim first.bad

theorem numeric_of_sorted {l : List (String × Number)}
    (numbers : Json.sorted (Json.normalMembers members) = Entries.mapValues .num l) :
    Numeric members := by
  intro name v last
  have mem : (name, v.normal) ∈ Entries.mapValues .num l :=
    numbers ▸ Json.mem_sorted_iff.mpr ⟨v, last, rfl⟩
  obtain ⟨e, -, same⟩ := List.mem_map.mp mem
  exact ⟨e.2, Json.eq_num_of_normal (Prod.mk.inj same).2.symm⟩

theorem firstBad_of_sorted {l : List (String × Number)} {name : String} {v : Json}
    {rest : List (String × Json)}
    (split : Json.sorted (Json.normalMembers members) =
      Entries.mapValues .num l ++ (name, v) :: rest)
    (bad : ∀ n, v ≠ .num n) : ∃ x, FirstBad members name x ∧ x.normal = v := by
  have mem : (name, v) ∈ Json.sorted (Json.normalMembers members) := by simp [split]
  obtain ⟨x, last, rfl⟩ := Json.mem_sorted_iff.mp mem
  refine ⟨x, ⟨last, ?_, fun other y found unlike => ?_⟩, rfl⟩
  · rintro n rfl
    exact bad n rfl
  · have ascending := (SortedTable.ofList (Json.normalMembers members)).ascending
    have place : (other, y.normal) ∈ Entries.mapValues .num l ++ (name, x.normal) :: rest :=
      split ▸ Json.mem_sorted_iff.mpr ⟨y, found, rfl⟩
    rw [← Json.sorted, split] at ascending
    rw [← Text.lt_iff_bytes_lt]
    rcases List.mem_append.mp place with before | behind
    · obtain ⟨e, -, same⟩ := List.mem_map.mp before
      exact absurd (Json.eq_num_of_normal (Prod.mk.inj same).2.symm) (unlike e.2)
    · rcases List.mem_cons.mp behind with here | later
      · rw [(Prod.mk.inj here).1]
        exact String.lt_irrefl name
      · have above := (List.pairwise_cons.mp (List.pairwise_append.mp ascending).2.1).1 _ later
        exact fun below => String.lt_irrefl _ (String.lt_trans below above)

/-- The metrics that the numbers of an object are. -/
structure MetricsOf (members : List (String × Json)) (t : SortedTable Double) : Prop where
  values : ∀ name x, t.find? name = some x ↔
    ∃ n, (Json.obj members).member? name = some (.num n) ∧ n.toDouble = x
  finite : ∀ m ∈ t.entries, m.2.isFinite = true

theorem metricsOf_sorted {l : List (String × Number)}
    (numbers : Json.sorted (Json.normalMembers members) = Entries.mapValues .num l)
    (held : ∀ n ∈ (Json.obj members).numbers, n.Held) :
    MetricsOf members (SortedTable.ofList (Entries.mapValues Number.toDouble l)) := by
  have ascending : (Entries.mapValues Number.toDouble l).Pairwise (·.1 < ·.1) := by
    have sorted := (SortedTable.ofList (Json.normalMembers members)).ascending
    rw [← Json.sorted, numbers] at sorted
    simpa only [Entries.mapValues, List.pairwise_map] using sorted
  have entries := SortedTable.entries_ofList_of_ascending ascending
  have last (name : String) (n : Number) : Entries.find? name l = some n ↔
      (Json.obj members).member? name = some (.num n) := by
    have images := Json.find?_normalMembers_eq members name
    rw [numbers, Entries.find?_mapValues] at images
    constructor
    · intro found
      rw [found, Option.map_some] at images
      obtain ⟨v, known, same⟩ := Option.map_eq_some_iff.mp images.symm
      rw [known, Json.eq_num_of_normal same]
    · intro known
      rw [known, Option.map_some] at images
      obtain ⟨m, found, same⟩ := Option.map_eq_some_iff.mp images
      rw [found, Json.num.inj same]
  have values (name : String) (x : Double) :
      (SortedTable.ofList (Entries.mapValues Number.toDouble l)).find? name = some x ↔
        ∃ n, (Json.obj members).member? name = some (.num n) ∧ n.toDouble = x := by
    rw [SortedTable.find?, entries, Entries.find?_mapValues, Option.map_eq_some_iff]
    simp only [last]
  refine ⟨values, fun m hm => ?_⟩
  have known := Entries.find?_of_mem
    (Entries.nodup_keys_of_ascending (SortedTable.ofList _).ascending) hm
  obtain ⟨n, found, same⟩ := (values m.1 m.2).mp known
  rw [← same]
  exact (held n (Json.numbers_of_member? found List.mem_cons_self)).isFinite_toDouble

end Members

/-- The run ended well and printed the text of an object with these members. -/
structure Finished.Reports (f : Finished) (members : List (String × Json)) : Prop where
  ended : f.ending.isSuccess = true
  printed : Json.Stands f.output (.obj members)

section Judge

variable {f : Finished} {members : List (String × Json)}

theorem judge_of_reports (reports : f.Reports members) :
    (Numeric members ∧ ∃ t, judge f = .ok t ∧ MetricsOf members t) ∨
      ∃ name v, FirstBad members name v ∧ judge f = .error (.notNumber name v.normal) := by
  have parsed : Json.parseBytes? f.output =
      some (.obj (Json.sorted (Json.normalMembers members))) :=
    Json.parseBytes?_eq_some_iff.mpr ⟨_, reports.printed, rfl⟩
  have judged : judge f =
      (metrics (Json.sorted (Json.normalMembers members))).map SortedTable.ofList := by
    rw [judge, if_pos reports.ended, readMetrics, parsed]
  rcases numbers_or_bad (Json.sorted (Json.normalMembers members)) with
    ⟨l, numbers⟩ | ⟨l, name, v, rest, split, bad⟩
  · refine .inl ⟨numeric_of_sorted numbers, _, ?_, metricsOf_sorted numbers reports.printed.held⟩
    rw [judged, numbers, metrics_mapValues]
    rfl
  · obtain ⟨x, first, rfl⟩ := firstBad_of_sorted split bad
    refine .inr ⟨name, x, first, ?_⟩
    rw [judged, split, metrics_of_bad l bad]
    rfl

theorem reports_of_judge {t : SortedTable Double} (judged : judge f = .ok t) :
    ∃ members, f.Reports members := by
  unfold judge at judged
  split at judged
  · rename_i ended
    unfold readMetrics at judged
    split at judged
    · cases judged
    · rename_i sorted parsed
      obtain ⟨j, printed, same⟩ := Json.parseBytes?_eq_some_iff.mp parsed
      cases j with
      | obj members => exact ⟨members, ended, printed⟩
      | null | bool | num | str | arr => cases same
    · cases judged
  · cases judged

end Judge

end Program

namespace Sweep

variable {μ : Type} {t : Task μ} {name : String} {o : Objective} {p q : Progress μ}

theorem addRecord_eq_error {r : RunRecord} {e : SweepError} (h : addRecord p r = .error e) :
    ∃ cause, e = .results cause := by
  unfold addRecord at h
  split at h
  · cases h
  · exact ⟨_, (Except.error.inj h).symm⟩

theorem settle_eq_error {v : Verdict} {e : SweepError} (h : settle t name o p v = .error e) :
    v = .fatal e ∨ ∃ cause, e = .results cause := by
  cases v with
  | fatal cause =>
    obtain rfl := Except.error.inj h
    exact .inl rfl
  | good r =>
    refine .inr ?_
    rw [settle] at h
    cases joined : addRecord p r with
    | ok p' =>
      rw [joined] at h
      cases h
    | error cause =>
      rw [joined] at h
      obtain rfl := Except.error.inj h
      exact addRecord_eq_error joined
  | failure =>
    refine .inr ?_
    unfold settle at h
    cases policy : t.options.policy with
    | skip =>
      simp only [policy] at h
      cases h
    | record =>
      simp only [policy] at h
      exact addRecord_eq_error h

theorem restore_eq_error {files there : Files.Tree} {e : SweepError}
    (h : restore t files = (.error e, there)) : ∃ cause, e = .checkpoint cause := by
  unfold restore at h
  simp only at h
  split at h
  · split at h
    · split at h
      · cases (Prod.mk.inj h).1
      · exact ⟨_, (Except.error.inj (Prod.mk.inj h).1).symm⟩
    · exact ⟨_, (Except.error.inj (Prod.mk.inj h).1).symm⟩
  · split at h
    · cases (Prod.mk.inj h).1
    · exact ⟨_, (Except.error.inj (Prod.mk.inj h).1).symm⟩

/-- What ends a sweep whose measurer gives it no reason to. -/
def Internal (e : SweepError) : Prop := (∃ cause, e = .checkpoint cause) ∨ ∃ cause, e = .results cause

theorem visit_eq_error {e : SweepError}
    (never : ∀ files memory cause, judge name o (t.measurer name o files memory).1 ≠ .fatal cause)
    (h : visit t (name, o) p = (.error e, q)) : Internal e := by
  have visited := visited t name o p
  rw [h] at visited
  cases visited with
  | stopped _ _ settling =>
    rcases settle_eq_error settling with fatal | results
    · exact absurd fatal (never p.files p.memory e)
    · exact .inr results
  | counted _ _ _ saving =>
    split at saving
    · exact .inl (save_eq_error saving).1
    · cases (Prod.mk.inj saving).1

theorem run_eq_error {files : Files.Tree} {memory : μ} {e : SweepError}
    (never : ∀ item ∈ t.config.domain.named, ∀ files memory cause,
      judge item.1 item.2 (t.measurer item.1 item.2 files memory).1 ≠ .fatal cause)
    (h : (run t files memory).result = .error e) : Internal e := by
  cases began : restore t files with
  | mk res there =>
    cases res with
    | error cause =>
      rw [run, began] at h
      obtain rfl := Except.error.inj h
      exact .inl (restore_eq_error began)
    | ok restored =>
      rw [run_of_restore began] at h
      split at h
      · rename_i cause p walked
        obtain rfl := Except.error.inj h
        obtain ⟨item, mem, s, -, failed⟩ :=
          walk_error (I := fun _ => True) (fun _ _ => trivial) trivial walked
        exact visit_eq_error (never item mem) failed
      · split at h
        · rename_i cause p saved
          obtain rfl := Except.error.inj h
          exact .inl (save_eq_error saved).1
        · cases h

end Sweep

namespace Program

/-- What the measurer answers; neither files nor memory count. -/
def answer (launch : Launcher) (program : String) (arguments : List String) (run : String)
    (o : Objective) : Except SweepError RunRecord :=
  (measure launch program arguments run o).mapError (Fault.error run)

/-- The program has its input, or does not read on. -/
def Child.Supplied (child : Child) : Prop :=
  child.input = .ok () ∨ child.input = .error .brokenPipe

/-- How the program finished, whether or not it has read its input. -/
structure Child.Finishes (child : Child) (f : Finished) : Prop where
  supplied : child.Supplied
  finish : child.finish = .ok f

section Answer

variable {launch : Launcher} {program : String} {arguments : List String} {run : String}
  {o : Objective} {child : Child} {f : Finished}

theorem measurer_eq (files : Files.Tree) (memory : Unit) :
    measurer launch program arguments run o files memory =
      (answer launch program arguments run o, memory) := by
  unfold measurer answer
  cases measure launch program arguments run o <;> rfl

theorem error_is_measurement (fault : Fault) : ∃ d, fault.error run = .measurement d := by
  cases fault <;> exact ⟨_, rfl⟩

theorem Child.finished_eq_ok (finishes : child.Finishes f) : child.finished = .ok f := by
  unfold finished
  rcases finishes.supplied with input | input <;> rw [input, finishes.finish] <;> rfl

theorem Child.finished_of_failed {cause : String} (input : child.input = .error (.failed cause)) :
    child.finished = .error (.notWritten cause) := by
  unfold finished
  rw [input]

theorem Child.finished_of_lost {cause : String} (supplied : child.Supplied)
    (finish : child.finish = .error cause) : child.finished = .error (.notAwaited cause) := by
  unfold finished
  rcases supplied with input | input <;> rw [input, finish] <;> rfl

/-- A program that does not read on is waited for like one that has read its input. -/
theorem Child.finished_of_broken (broken : child.input = .error .brokenPipe) :
    Child.finished { child with input := .ok () } = child.finished := by
  unfold finished
  rw [broken]

theorem measure_of_started (started : launch program arguments (request run o) = .ok child) :
    measure launch program arguments run o =
      child.finished.bind fun f => (judge f).map (.of run o) := by
  rw [measure, started]

theorem answer_of_finished (started : launch program arguments (request run o) = .ok child)
    (finishes : child.Finishes f) :
    answer launch program arguments run o =
      match judge f with
      | .ok t => .ok (.of run o t)
      | .error fault => .error (fault.error run) := by
  rw [answer, measure_of_started started, Child.finished_eq_ok finishes]
  cases judged : judge f <;> simp only [Except.bind, judged] <;> rfl

theorem answer_of_fault {fault : Fault}
    (started : launch program arguments (request run o) = .ok child)
    (failed : child.finished = .error fault) :
    answer launch program arguments run o = .error (fault.error run) := by
  rw [answer, measure_of_started started, failed]
  rfl

theorem judge_of (held : o.HeldValues) {t : SortedTable Double}
    (finite : ∀ m ∈ t.entries, m.2.isFinite = true) :
    Sweep.judge run o (.ok (.of run o t)) = .good (.of run o t) := by
  have answers : Sweep.answers o (.of run o t) = true := by
    rw [Sweep.answers, Bool.and_eq_true]
    exact ⟨beq_self_eq_true o.model, Objective.samePoint_of_gridKey held held rfl⟩
  have fine : Sweep.badMetric? (.of run o t) = none := by
    rw [Sweep.badMetric?, List.find?_eq_none]
    intro m hm
    rw [finite m hm]
    exact Bool.false_ne_true
  rw [Sweep.judge, answers, fine]
  rfl

/-- The record of the requested objective with the metrics that a run reports; a sweep takes it. -/
structure Reported (run : String) (o : Objective) (f : Finished) (r : RunRecord) : Prop where
  name : r.name = run
  samePoint : r.objective.samePoint o = true
  metrics : ∃ members, f.Reports members ∧ Numeric members ∧ MetricsOf members r.metrics
  good : Sweep.judge run o (.ok r) = .good r

theorem reported_of_judge (held : o.HeldValues) {t : SortedTable Double} (judged : judge f = .ok t) :
    Reported run o f (.of run o t) := by
  obtain ⟨members, reports⟩ := reports_of_judge judged
  obtain ⟨numeric, t', same, metrics⟩ | ⟨name, v, -, failed⟩ := judge_of_reports reports
  · obtain rfl := Except.ok.inj (same.symm.trans judged)
    exact
      { name := rfl
        samePoint := Objective.samePoint_of_gridKey held held rfl
        metrics := ⟨members, reports, numeric, metrics⟩
        good := judge_of held metrics.finite }
  · cases failed.symm.trans judged

/-- What the answer says of a run that has finished: it is a record just when the run reports numbers, and
then the record that a sweep takes; else it is an error of measuring, which tells the first name without a
number. -/
structure Judged (run : String) (o : Objective) (f : Finished) (answer : Except SweepError RunRecord) :
    Prop where
  made : (∃ r, answer = .ok r) ↔ ∃ members, f.Reports members ∧ Numeric members
  record : ∀ r, answer = .ok r → Reported run o f r
  refused : ∀ e, answer = .error e → (∃ d, e = .measurement d) ∧
    ∀ members, f.Reports members → ∃ name v, FirstBad members name v ∧
      e = Sweep.metricError run name v.normal.compact

theorem judged_of_ok (held : o.HeldValues) {t : SortedTable Double} (judged : judge f = .ok t) :
    Judged run o f (.ok (.of run o t)) where
  made := by
    have reported : Reported run o f (.of run o t) := reported_of_judge held judged
    obtain ⟨members, reports, numeric, -⟩ := reported.metrics
    exact ⟨fun _ => ⟨members, reports, numeric⟩, fun _ => ⟨_, rfl⟩⟩
  record := by
    rintro r ⟨⟩
    exact reported_of_judge held judged
  refused := by rintro e ⟨⟩

theorem judged_of_error {fault : Fault} (judged : judge f = .error fault) :
    Judged run o f (.error (fault.error run)) where
  made := by
    constructor
    · rintro ⟨r, ⟨⟩⟩
    · rintro ⟨members, reports, numeric⟩
      obtain ⟨-, t, made, -⟩ | ⟨name, v, first, -⟩ := judge_of_reports reports
      · cases made.symm.trans judged
      · exact absurd numeric first.not_numeric
  record := by rintro r ⟨⟩
  refused := by
    rintro e ⟨⟩
    refine ⟨error_is_measurement fault, fun members reports => ?_⟩
    obtain ⟨-, t, made, -⟩ | ⟨name, v, first, failed⟩ := judge_of_reports reports
    · cases made.symm.trans judged
    · obtain rfl := Except.error.inj (failed.symm.trans judged)
      exact ⟨name, v, first, rfl⟩

theorem judged_of_finished (held : o.HeldValues)
    (started : launch program arguments (request run o) = .ok child) (finishes : child.Finishes f) :
    Judged run o f (answer launch program arguments run o) := by
  rw [answer_of_finished started finishes]
  cases judged : judge f with
  | ok t => exact judged_of_ok held judged
  | error fault => exact judged_of_error judged

/-- A sweep has no reason to end because of an answer: a record is one of the requested objective. -/
theorem answer_never_fatal (held : o.HeldValues) (cause : SweepError) :
    Sweep.judge run o (answer launch program arguments run o) ≠ .fatal cause := by
  intro fatal
  cases started : launch program arguments (request run o) with
  | error reason =>
    rw [answer, measure, started] at fatal
    cases fatal
  | ok child =>
    cases finished : child.finished with
    | error fault =>
      rw [answer_of_fault started finished] at fatal
      cases fatal
    | ok f =>
      rw [answer, measure_of_started started, finished] at fatal
      cases judged : judge f with
      | error fault =>
        simp only [Except.bind, judged] at fatal
        cases fatal
      | ok t =>
        simp only [Except.bind, judged] at fatal
        have reported : Reported run o f (.of run o t) := reported_of_judge held judged
        cases reported.good.symm.trans fatal

end Answer

/-- Of a program that can be started, whether or not it reads its input: what it is that finished decides
the answer (`Judged`), and a pipe that it has closed changes nothing. An input that cannot be written for
another reason, or a program that cannot be waited for, makes an error of measuring that tells the cause. No
sweep with this measurer ends because of what was measured. -/
theorem answer_exact (launch : Launcher) (program : String) (arguments : List String) :
    (∀ run o files memory, measurer launch program arguments run o files memory =
      (answer launch program arguments run o, memory)) ∧
    (∀ run o child, launch program arguments (request run o) = .ok child →
      (∀ f, o.HeldValues → child.Finishes f →
        Judged run o f (answer launch program arguments run o)) ∧
      (child.input = .error .brokenPipe → ∀ reading : Launcher,
        reading program arguments (request run o) = .ok { child with input := .ok () } →
          answer reading program arguments run o = answer launch program arguments run o) ∧
      (∀ cause, child.input = .error (.failed cause) → answer launch program arguments run o =
        .error (.measurement (.of "measure-stdin" cause [("run", run)]))) ∧
      ∀ cause, child.Supplied → child.finish = .error cause →
        answer launch program arguments run o =
          .error (.measurement (.of "measure-wait" cause [("run", run)]))) ∧
    ∀ t : Sweep.Task Unit, t.measurer = measurer launch program arguments →
      (∀ item ∈ t.config.domain.named, item.2.HeldValues) →
      ∀ files e, (Sweep.run t files ()).result = .error e → Sweep.Internal e := by
  refine ⟨fun _ _ => measurer_eq, fun run o child started => ⟨?_, ?_, ?_, ?_⟩,
    fun t same held files e failed => ?_⟩
  · intro f held finishes
    exact judged_of_finished held started finishes
  · intro broken reading startedReading
    rw [answer, answer, measure_of_started started, measure_of_started startedReading,
      Child.finished_of_broken broken]
  · intro cause input
    exact answer_of_fault started (Child.finished_of_failed input)
  · intro cause supplied finish
    exact answer_of_fault started (Child.finished_of_lost supplied finish)
  · apply Sweep.run_eq_error _ failed
    intro item mem files memory cause
    rw [same, measurer_eq]
    exact answer_never_fatal (held item mem) cause

def printed (members : List (String × Json)) : Finished :=
  ⟨(Json.obj members).compact.toUTF8, .empty, .exited 0⟩

def printing (members : List (String × Json)) : Launcher := fun _ _ _ => .ok (printed members)

/-- A program that prints these members without reading its request. -/
def deaf (members : List (String × Json)) : Launcher := fun _ _ _ =>
  .ok ⟨.error .brokenPipe, .ok (printed members)⟩

def choked : Launcher := fun _ _ _ => .ok ⟨.error (.failed "I/O error"), .ok (printed [])⟩

def lost : Launcher := fun _ _ _ => .ok ⟨.ok (), .error "no child process"⟩

/-- A name that stands twice, first with a text, and an integer that is rounded. -/
def numeric : List (String × Json) :=
  [("latency", .str "slow"), ("tokens", .ofInt 9007199254740993), ("latency", .ofInt 3)]

/-- Two names without numbers, the greater one first. -/
def textual : List (String × Json) :=
  [("b", .null), ("a", .bool true), ("c", .ofInt 1)]

theorem stands_printing (members : List (String × Json))
    (integers : ∀ n ∈ (Json.obj members).numbers, ∃ i : Int, n = .int i ∧ Number.Fits i)
    (depth : (Json.obj members).depth < 128) :
    Json.Stands (Json.obj members).compact.toUTF8 (.obj members) :=
  Json.stands_compact (fun n hn => by
    obtain ⟨i, rfl, fits⟩ := integers n hn
    exact Number.readsBack_int fits) depth

theorem reports_numeric : (printed numeric).Reports numeric where
  ended := rfl
  printed := stands_printing numeric (fun n hn => by
    change n ∈ [Number.int 9007199254740993, .int 3] at hn
    simp only [List.mem_cons, List.not_mem_nil, or_false] at hn
    rcases hn with rfl | rfl <;> exact ⟨_, rfl, by decide, by decide⟩) (by decide)

theorem reports_textual : (printed textual).Reports textual where
  ended := rfl
  printed := stands_printing textual (fun n hn => by
    obtain rfl := List.mem_singleton.mp (show n ∈ [Number.int 1] from hn)
    exact ⟨1, rfl, by decide, by decide⟩) (by decide)

theorem firstBad_textual {name : String} {v : Json} (first : FirstBad textual name v) :
    name = "a" ∧ v = .bool true := by
  have last := first.last
  simp only [Json.member?, textual, List.reverse_cons, List.reverse_nil, List.nil_append,
    List.cons_append, Entries.find?] at last
  split at last
  · exact absurd (Option.some.inj last).symm (first.bad (.int 1))
  · split at last
    · rename_i here
      exact ⟨here.symm, (Option.some.inj last).symm⟩
    · split at last
      · rename_i here
        subst here
        have before : Text.bytes "a" < Text.bytes "b" := Text.lt_iff_bytes_lt.mp (by decide)
        exact absurd before (first.first "a" (.bool true) rfl fun n same => by cases same)
      · cases last

theorem numeric_numeric : Numeric numeric := by
  intro name v last
  simp only [Json.member?, numeric, List.reverse_cons, List.reverse_nil, List.nil_append,
    List.cons_append, Entries.find?] at last
  split at last
  · exact ⟨_, (Option.some.inj last).symm⟩
  · split at last
    · exact ⟨_, (Option.some.inj last).symm⟩
    · cases last

/-- Two programs that print the same, of which one does not read; a third that has no metrics and does not
read; and two that fail before they are judged. -/
theorem answer_exact_printing :
    (∃ r, answer (printing numeric) "bench" [] "m_run_0" ⟨"m", .empty, .empty⟩ = .ok r ∧
      answer (deaf numeric) "bench" [] "m_run_0" ⟨"m", .empty, .empty⟩ = .ok r ∧
      r.metrics.find? "latency" = some (.ofInt 3)) ∧
    answer (deaf textual) "bench" [] "m_run_0" ⟨"m", .empty, .empty⟩ =
      .error (Sweep.metricError "m_run_0" "a" "true") ∧
    answer choked "bench" [] "m_run_0" ⟨"m", .empty, .empty⟩ =
      .error (.measurement (.of "measure-stdin" "I/O error" [("run", "m_run_0")])) ∧
    answer lost "bench" [] "m_run_0" ⟨"m", .empty, .empty⟩ =
      .error (.measurement (.of "measure-wait" "no child process" [("run", "m_run_0")])) ∧
    ∀ files e, (Sweep.run (Sweep.unruly.measuredBy (measurer (deaf textual) "bench" [])) files
      ()).result = .error e → Sweep.Internal e := by
  have held : (⟨"m", .empty, .empty⟩ : Objective).HeldValues := fun e he => by cases he
  obtain ⟨-, deafNumeric, -⟩ := answer_exact (deaf numeric) "bench" []
  obtain ⟨-, deafTextual, swept⟩ := answer_exact (deaf textual) "bench" []
  obtain ⟨-, chokes, -⟩ := answer_exact choked "bench" []
  obtain ⟨-, loses, -⟩ := answer_exact lost "bench" []
  obtain ⟨judged, pipe, -, -⟩ := deafNumeric "m_run_0" ⟨"m", .empty, .empty⟩ _ rfl
  obtain ⟨refused, -, -, -⟩ := deafTextual "m_run_0" ⟨"m", .empty, .empty⟩ _ rfl
  obtain ⟨-, -, stdin, -⟩ := chokes "m_run_0" ⟨"m", .empty, .empty⟩ _ rfl
  obtain ⟨-, -, -, wait⟩ := loses "m_run_0" ⟨"m", .empty, .empty⟩ _ rfl
  refine ⟨?_, ?_, stdin _ rfl, wait _ (.inl rfl) rfl, swept _ rfl Sweep.held_unruly⟩
  · have same := pipe rfl (printing numeric) rfl
    have outcome := judged (printed numeric) held ⟨.inr rfl, rfl⟩
    obtain ⟨r, answered⟩ := outcome.made.mpr ⟨numeric, reports_numeric, numeric_numeric⟩
    obtain ⟨members, reports, -, metrics⟩ := (outcome.record r answered).metrics
    obtain rfl := Json.obj.inj (reports_numeric.printed.unique reports.printed)
    exact ⟨r, same.trans answered, answered,
      (metrics.values "latency" (.ofInt 3)).mpr ⟨.int 3, rfl, rfl⟩⟩
  · have outcome := refused (printed textual) held ⟨.inr rfl, rfl⟩
    cases answered : answer (deaf textual) "bench" [] "m_run_0" ⟨"m", .empty, .empty⟩ with
    | ok r =>
      obtain ⟨members, reports, numbers⟩ := outcome.made.mp ⟨r, answered⟩
      obtain rfl := Json.obj.inj (reports_textual.printed.unique reports.printed)
      obtain ⟨n, same⟩ := numbers "b" .null rfl
      cases same
    | error e =>
      obtain ⟨name, v, first, rfl⟩ := (outcome.refused e answered).2 textual reports_textual
      obtain ⟨rfl, rfl⟩ := firstBad_textual first
      rfl

end Program

end GridSweep
