import GridSweep.Proofs.Grid.Repetition
import GridSweep.Proofs.Sweep.Accounting
import GridSweep.Proofs.Sweep.Recognition

/-!
What a sweep skips. It skips what the restored results cover, and also what a call of its own has
covered before: an objective whose point comes twice is measured once. So the skipped objectives are
the restored ones as long as no parameter lists a candidate twice, and not always otherwise
(`skipped_eq`).
-/
namespace GridSweep.Sweep

variable {μ : Type}

def covered (s : ResultSet) (item : String × Objective) : Bool := s.contains item.2.model item.2

def asked (calls : List Call) (item : String × Objective) : Bool := calls.any (·.name == item.1)

/-- The answer of the call is one of the measurer. -/
def Call.Genuine (m : Measurer μ) (c : Call) : Prop :=
  ∃ files memory, (m c.name c.objective files memory).1 = c.answer

/-- The counts of what was not measured, by the results and the calls so far. -/
structure Counted (m : Measurer μ) (items : List (String × Objective)) (calls : List Call)
    (outcome : Outcome) : Prop where
  skipped : outcome.skipped = items.countP fun i => covered outcome.results i && !asked calls i
  remaining : outcome.remaining = items.countP fun i => !covered outcome.results i && !asked calls i
  genuine : ∀ c ∈ calls, c.Genuine m
  judged : ∀ c ∈ calls, c.verdict.isGood.toNat + c.verdict.isFailure.toNat = 1

section Step

variable {options : Options} {restored : ResultSet} {items : List (String × Objective)}
  {item : String × Objective} {calls : List Call} {outcome : Outcome} {m : Measurer μ}
  {p q : Progress (μ × List Call)}

theorem Accounts.not_asked (accounts : Accounts options restored items calls outcome)
    (fresh : item.1 ∉ items.map Prod.fst) : asked calls item = false := by
  simp only [asked, List.any_eq_false, beq_iff_eq]
  intro c hc same
  apply fresh
  have listed : c.item ∈ items := accounts.order.subset (List.mem_map_of_mem hc)
  exact List.mem_map.mpr ⟨c.item, listed, same⟩

theorem Accounts.none_left (accounts : Accounts options restored items calls p.outcome)
    (within : options.limit.any (· ≤ p.attempts) = false) : p.remaining = 0 := by
  cases bounded : options.limit with
  | none => exact accounts.unlimited bounded
  | some limit =>
    have reached := (accounts.limited limit bounded).2
    rw [bounded, Option.any_some, decide_eq_false_iff_not, Progress.attempts] at within
    simp only [Progress.outcome] at reached
    omega

theorem Counted.covered_of_not_asked (counted : Counted m items calls outcome)
    (none : outcome.remaining = 0) (listed : item ∈ items) (unasked : asked calls item = false) :
    covered outcome.results item = true := by
  have each := List.countP_eq_zero.mp (counted.remaining.symm.trans none) item listed
  simpa [unasked] using each

theorem counted_start (m : Measurer μ) (restored : ResultSet) :
    Counted m [] [] ⟨0, 0, 0, 0, restored⟩ where
  skipped := rfl
  remaining := rfl
  genuine _ hc := by cases hc
  judged _ hc := by cases hc

theorem Counted.skip (counted : Counted m items calls p.outcome)
    (unasked : asked calls item = false) (known : covered p.results item = true) :
    Counted m (items ++ [item]) calls { p with skipped := p.skipped + 1 }.outcome where
  skipped := by
    have before := counted.skipped
    simp only [Progress.outcome] at before ⊢
    simp [before, unasked, known]
  remaining := by
    have before := counted.remaining
    simp only [Progress.outcome] at before ⊢
    simp [before, known]
  genuine := counted.genuine
  judged := counted.judged

theorem Counted.leave (counted : Counted m items calls p.outcome)
    (unasked : asked calls item = false) (unknown : covered p.results item = false) :
    Counted m (items ++ [item]) calls { p with remaining := p.remaining + 1 }.outcome where
  skipped := by
    have before := counted.skipped
    simp only [Progress.outcome] at before ⊢
    simp [before, unknown]
  remaining := by
    have before := counted.remaining
    simp only [Progress.outcome] at before ⊢
    simp [before, unasked, unknown]
  genuine := counted.genuine
  judged := counted.judged

/-- A call leaves the counts as they are: before it nothing was left out, so no earlier objective can
be covered by its record that was not covered then. -/
theorem Counted.call {c : Call} (counted : Counted m items calls p.outcome)
    (none : p.remaining = 0) (fresh : c.name ∉ items.map Prod.fst)
    (settled : Settled options.policy c.name c.objective c.verdict p q) (genuine : c.Genuine m) :
    Counted m (items ++ [c.item]) (calls ++ [c]) q.outcome := by
  have grown : p.results.records <+: q.results.records := by
    rw [settled.records]
    exact List.prefix_append _ _
  have others {i : String × Objective} (hi : i ∈ items) : asked (calls ++ [c]) i = asked calls i := by
    have other : c.name ≠ i.1 := fun same => fresh (List.mem_map.mpr ⟨i, hi, same.symm⟩)
    simp [asked, other]
  have stays {i : String × Objective} (hi : i ∈ items) (unasked : asked calls i = false) :
      covered p.results i = true ∧ covered q.results i = true := by
    have before := counted.covered_of_not_asked none hi unasked
    exact ⟨before, contains_mono grown before⟩
  have own : asked (calls ++ [c]) c.item = true := by simp [asked, Call.item]
  constructor
  · have before := counted.skipped
    simp only [Progress.outcome] at before ⊢
    rw [List.countP_append, settled.skipped, before]
    have same : items.countP (fun i => covered q.results i && !asked (calls ++ [c]) i) =
        items.countP fun i => covered p.results i && !asked calls i := by
      apply List.countP_congr
      intro i hi
      cases unasked : asked calls i with
      | true => simp [others hi, unasked]
      | false => simp [others hi, unasked, stays hi unasked]
    simp [same, own]
  · have left : q.remaining = 0 := settled.remaining.trans none
    simp only [Progress.outcome]
    rw [left, eq_comm, List.countP_eq_zero]
    intro i hi
    rcases List.mem_append.mp hi with hi | hi
    · cases unasked : asked calls i with
      | true => simp [others hi, unasked]
      | false => simp [stays hi unasked]
    · obtain rfl := List.mem_singleton.mp hi
      simp [own]
  · intro d hd
    rcases List.mem_append.mp hd with hd | hd
    · exact counted.genuine d hd
    · obtain rfl := List.mem_singleton.mp hd
      exact genuine
  · intro d hd
    rcases List.mem_append.mp hd with hd | hd
    · exact counted.judged d hd
    · obtain rfl := List.mem_singleton.mp hd
      exact settled.attempt

theorem Counted.visit {t : Task μ}
    (accounts : Accounts t.options restored items p.memory.2 p.outcome)
    (counted : Counted t.measurer items p.memory.2 p.outcome) (fresh : item.1 ∉ items.map Prod.fst)
    (went : Sweep.visit t.logged item p = (.ok (), q)) :
    Counted t.measurer (items ++ [item]) q.memory.2 q.outcome := by
  obtain ⟨name, o⟩ := item
  have unasked := accounts.not_asked fresh
  have ways := visited t.logged name o p
  rw [went] at ways
  cases ways with
  | skipped known => exact counted.skip unasked known
  | left unknown beyond => exact counted.leave unasked unknown
  | counted unknown within settling saving =>
    obtain ⟨files, unsaved, rfl⟩ := saving_snd saving
    have step := settled settling
    let c : Call := ⟨name, o, (measure t.logged p name o).1⟩
    have none : p.remaining = 0 := accounts.none_left within
    have grown := counted.call (c := c) (p := (measure t.logged p name o).2) none fresh step
      ⟨p.files, p.memory.1, rfl⟩
    rw [step.memory]
    exact grown

theorem counted_of_run {t : Task μ} {files : Files.Tree} {memory : μ}
    (ended : (run t files memory).result = .ok outcome) :
    ∃ restored there calls, Begins t files restored there ∧
      run t.logged files (memory, []) = ⟨.ok outcome, (run t files memory).files,
        ((run t files memory).memory, calls)⟩ ∧
      Accounts t.options restored t.config.domain.named calls outcome ∧
      Counted t.measurer t.config.domain.named calls outcome := by
  obtain ⟨restored, there, calls, begins, whole, accounts, counted⟩ := run_carried
    (I := fun restored items calls outcome => Accounts t.options restored items calls outcome ∧
      ((items.map Prod.fst).Nodup → Counted t.measurer items calls outcome))
    (fun restored => ⟨accounts_start t.options restored, fun _ => counted_start t.measurer restored⟩)
    (by
      rintro restored items item p q ⟨accounts, counted⟩ went
      refine ⟨accounts.visit went, fun distinct => ?_⟩
      rw [List.map_append, List.nodup_append] at distinct
      have fresh : item.1 ∉ items.map Prod.fst := fun known =>
        distinct.2.2 _ known _ List.mem_cons_self rfl
      exact (counted distinct.1).visit accounts fresh went)
    ended
  exact ⟨restored, there, calls, begins, whole, accounts, counted t.config.domain.nodup_names⟩

end Step

/-- The measurer answers with an error, or with a record of the objective under the name of its run. -/
def Measurer.Faithful (m : Measurer μ) : Prop :=
  ∀ name o files memory r, (m name o files memory).1 = .ok r → ∃ metrics, r = .of name o metrics

/-- The measurer always answers with such a record, and with finite metrics. -/
def Measurer.Diligent (m : Measurer μ) : Prop :=
  ∀ name o files memory, ∃ metrics, (∀ e ∈ metrics.entries, e.2.isFinite = true) ∧
    (m name o files memory).1 = .ok (.of name o metrics)

theorem Measurer.Diligent.faithful {m : Measurer μ} (diligent : m.Diligent) : m.Faithful := by
  intro name o files memory r answered
  obtain ⟨metrics, _, given⟩ := diligent name o files memory
  exact ⟨metrics, Except.ok.inj (answered.symm.trans given)⟩

section Calls

variable {m : Measurer μ} {policy : FailurePolicy} {c : Call} {r : RunRecord}

theorem Call.Genuine.point (genuine : c.Genuine m) (faithful : m.Faithful)
    (left : c.record? policy = some r) : r.point = c.objective.point := by
  obtain ⟨files, memory, given⟩ := genuine
  unfold Call.record? Call.verdict at left
  cases judged : judge c.name c.objective c.answer with
  | fatal e => simp [judged, Verdict.record?] at left
  | good s =>
    obtain rfl : s = r := by simpa [judged, Verdict.record?] using left
    obtain ⟨answered, _⟩ := judge_eq_good judged
    obtain ⟨metrics, rfl⟩ := faithful c.name c.objective files memory s (given.trans answered)
    rfl
  | failure =>
    cases policy with
    | skip => simp [judged, Verdict.record?] at left
    | record =>
      obtain rfl : failedRecord c.name c.objective = r := by
        simpa [judged, Verdict.record?] using left
      rfl

theorem Call.Genuine.good (genuine : c.Genuine m) (diligent : m.Diligent)
    (held : c.objective.HeldValues) : ∃ r, c.verdict = .good r := by
  obtain ⟨files, memory, given⟩ := genuine
  obtain ⟨metrics, finite, answered⟩ := diligent c.name c.objective files memory
  have self := (Objective.samePoint_iff held held).mpr ⟨rfl, fun _ => rfl⟩
  have fits : answers c.objective (.of c.name c.objective metrics) = true := by
    simp [answers, RunRecord.of, self]
  have fine : badMetric? (.of c.name c.objective metrics) = none := by
    apply List.find?_eq_none.mpr
    intro e he
    simp [finite e he]
  refine ⟨.of c.name c.objective metrics, ?_⟩
  rw [Call.verdict, ← given, answered]
  simp [judge, fits, fine]

end Calls

section Ended

variable {options : Options} {restored : ResultSet} {items : List (String × Objective)}
  {item : String × Objective} {calls : List Call} {outcome : Outcome} {m : Measurer μ}

theorem Accounts.prefix_results (accounts : Accounts options restored items calls outcome) :
    restored.records <+: outcome.results.records := by
  rw [accounts.records]
  exact List.prefix_append _ _

theorem Accounts.item_of_asked (accounts : Accounts options restored items calls outcome)
    (distinct : (items.map Prod.fst).Nodup) (listed : item ∈ items)
    (called : asked calls item = true) : item ∈ calls.map Call.item := by
  obtain ⟨c, hc, same⟩ := List.any_eq_true.mp called
  have known : c.item ∈ items := accounts.order.subset (List.mem_map_of_mem hc)
  have equal : c.item = item := List.inj_on_of_nodup_map distinct known listed (beq_iff_eq.mp same)
  exact equal ▸ List.mem_map_of_mem hc

theorem Accounts.not_asked_of_restored (accounts : Accounts options restored items calls outcome)
    (distinct : (items.map Prod.fst).Nodup) (listed : item ∈ items)
    (there : covered restored item = true) : asked calls item = false := by
  apply Bool.eq_false_iff.mpr
  intro called
  obtain ⟨c, hc, rfl⟩ := List.mem_map.mp (accounts.item_of_asked distinct listed called)
  obtain ⟨before, after, split⟩ := List.append_of_mem hc
  obtain ⟨s, records, unknown⟩ := accounts.unknown before c after split
  have grown : restored.records <+: s.records := by simp [records]
  have found := contains_mono grown there
  simp [Call.item, unknown] at found

/-- The skipped objectives are the restored ones and those that a call has covered. -/
theorem Counted.skipped_split (counted : Counted m items calls outcome)
    (accounts : Accounts options restored items calls outcome)
    (distinct : (items.map Prod.fst).Nodup) :
    outcome.skipped = items.countP (covered restored) + items.countP fun i =>
      !covered restored i && (covered outcome.results i && !asked calls i) := by
  have split := List.countP_eq_countP_filter_add items
    (fun i => covered outcome.results i && !asked calls i) (covered restored)
  rw [← counted.skipped, List.countP_filter, List.countP_filter] at split
  rw [split]
  congr 1
  · apply List.countP_congr
    intro i hi
    cases there : covered restored i with
    | false => simp
    | true =>
      have later : covered outcome.results i = true := contains_mono accounts.prefix_results there
      simp [later, accounts.not_asked_of_restored distinct hi there]
  · apply List.countP_congr
    intro i _
    simp [Bool.and_comm]

/-- What the results of a faithful measurer cover was restored, or is the point of a call that has left
a record. -/
theorem Counted.point_of_covered (counted : Counted m items calls outcome)
    (accounts : Accounts options restored items calls outcome) (faithful : m.Faithful)
    (found : covered outcome.results item = true) :
    covered restored item = true ∨ ∃ c ∈ calls, (∃ r, c.record? options.policy = some r) ∧
      c.objective.point = item.2.point := by
  have listed := ResultSet.contains_iff_mem.mp found
  rw [accounts.records, List.map_append, List.mem_append] at listed
  rcases listed with there | new
  · exact .inl (ResultSet.contains_iff_mem.mpr there)
  · obtain ⟨r, hr, point⟩ := List.mem_map.mp new
    obtain ⟨c, hc, left⟩ := List.mem_filterMap.mp hr
    have own := (counted.genuine c hc).point faithful left
    exact .inr ⟨c, hc, ⟨r, left⟩, own.symm.trans point⟩

/-- With distinct points, what a call has covered was asked for. -/
theorem Counted.asked_of_covered (counted : Counted m items calls outcome)
    (accounts : Accounts options restored items calls outcome) (faithful : m.Faithful)
    (apart : (items.map (·.2.point)).Nodup) (listed : item ∈ items)
    (new : covered restored item = false) (found : covered outcome.results item = true) :
    asked calls item = true := by
  rcases counted.point_of_covered accounts faithful found with there | ⟨c, hc, _, point⟩
  · simp [new] at there
  · have known : c.item ∈ items := accounts.order.subset (List.mem_map_of_mem hc)
    have equal : c.item = item := List.inj_on_of_nodup_map apart known listed point
    exact List.any_eq_true.mpr ⟨c, hc, by simp [← equal, Call.item]⟩

theorem nodup_of_fresh {α : Type} {l : List α} (fresh : Throughout (fun before a => a ∉ before) l) :
    l.Nodup := by
  induction l using List.reverseRecOn with
  | nil => exact .nil
  | append_singleton l a ih =>
    obtain ⟨early, last⟩ := throughout_concat.mp fresh
    rw [← List.concat_eq_append, List.nodup_concat]
    exact ⟨last, ih early⟩

/-- If every call leaves a record of its point, no point is called twice. -/
theorem Accounts.nodup_called (accounts : Accounts options restored items calls outcome)
    (leaves : ∀ c ∈ calls, ∃ r, c.record? options.policy = some r ∧ r.point = c.objective.point) :
    (calls.map (·.objective.point)).Nodup := by
  apply nodup_of_fresh
  intro before point after split known
  obtain ⟨early, rest, rfl, rfl, later⟩ := List.map_eq_append_iff.mp split
  obtain ⟨c, late, rfl, rfl, rfl⟩ := List.map_eq_cons_iff.mp later
  obtain ⟨d, hd, same⟩ := List.mem_map.mp known
  obtain ⟨r, left, own⟩ := leaves d (List.mem_append_left _ hd)
  obtain ⟨s, records, unknown⟩ := accounts.unknown early c late rfl
  have found : s.contains c.objective.model c.objective = true := by
    apply ResultSet.contains_iff_mem.mpr
    rw [← same, ← own]
    apply List.mem_map_of_mem
    rw [records]
    exact List.mem_append_right _ (List.mem_filterMap.mpr ⟨d, hd, left⟩)
  simp [unknown] at found

/-- A sweep that starts from nothing and leaves nothing out has called every point, and each once. -/
theorem Counted.perm_points (counted : Counted m items calls outcome)
    (accounts : Accounts options restored items calls outcome)
    (distinct : (items.map Prod.fst).Nodup) (faithful : m.Faithful)
    (empty : restored.records = []) (none : outcome.remaining = 0)
    (once : (calls.map (·.objective.point)).Nodup) :
    (items.map (·.2.point)).dedup.Perm (calls.map (·.objective.point)) := by
  apply (List.perm_ext_iff_of_nodup (List.nodup_dedup _) once).mpr
  intro point
  rw [List.mem_dedup]
  constructor
  · intro listed
    obtain ⟨i, hi, rfl⟩ := List.mem_map.mp listed
    cases unasked : asked calls i with
    | true =>
      obtain ⟨c, hc, rfl⟩ := List.mem_map.mp (accounts.item_of_asked distinct hi unasked)
      exact List.mem_map_of_mem (f := fun c => c.objective.point) hc
    | false =>
      have found := counted.covered_of_not_asked none hi unasked
      rcases counted.point_of_covered accounts faithful found with there | ⟨c, hc, _, point⟩
      · obtain ⟨r, hr, _⟩ := ResultSet.contains_iff.mp there
        simp [empty] at hr
      · exact List.mem_map.mpr ⟨c, hc, point⟩
  · intro called
    obtain ⟨c, hc, rfl⟩ := List.mem_map.mp called
    have known : c.item ∈ items := accounts.order.subset (List.mem_map_of_mem hc)
    exact List.mem_map_of_mem (f := fun i => i.2.point) known

end Ended

theorem points_named (d : Domain) :
    d.named.map (·.2.point) = d.objectives.map Objective.point := by
  rw [← d.objectives_named, List.map_map]
  rfl

/-- What a sweep over all of a domain comes to when it starts from nothing and every measurement
succeeds. -/
structure Whole (d : Domain) (outcome : Outcome) : Prop where
  failed : outcome.failed = 0
  remaining : outcome.remaining = 0
  measured : outcome.measured = (d.objectives.map Objective.point).dedup.length
  size : outcome.results.size = outcome.measured
  skipped_iff : outcome.skipped = 0 ↔ d.Unrepeated
  count : d.Unrepeated → min outcome.measured Count.limit = d.count

theorem whole_of_points {d : Domain} {outcome : Outcome} (declared : d.Declared)
    (held : d.HeldCandidates)
    (total : outcome.measured + outcome.skipped = (d.objectives.map Objective.point).length)
    (failed : outcome.failed = 0) (remaining : outcome.remaining = 0)
    (measured : outcome.measured = (d.objectives.map Objective.point).dedup.length)
    (size : outcome.results.size = outcome.measured) : Whole d outcome := by
  have skipped_iff : outcome.skipped = 0 ↔ d.Unrepeated := by
    rw [← Domain.nodup_points_iff declared held, ← List.dedup_eq_self]
    constructor
    · intro none
      exact (List.dedup_sublist _).eq_of_length (by omega)
    · intro same
      rw [same] at measured
      omega
  refine ⟨failed, remaining, measured, size, skipped_iff, ?_⟩
  intro unrepeated
  have none := skipped_iff.mpr unrepeated
  rw [List.length_map] at total
  rw [d.count_eq]
  congr 1
  omega

theorem whole {d : Domain} {options : Options} {restored : ResultSet} {calls : List Call}
    {outcome : Outcome} {m : Measurer μ} (declared : d.Declared) (held : d.HeldCandidates)
    (accounts : Accounts options restored d.named calls outcome)
    (counted : Counted m d.named calls outcome) (empty : restored.records = [])
    (unlimited : options.limit = none) (diligent : m.Diligent) : Whole d outcome := by
  have good {c : Call} (hc : c ∈ calls) : ∃ r, c.verdict = .good r := by
    have known : c.item ∈ d.named := accounts.order.subset (List.mem_map_of_mem hc)
    exact (counted.genuine c hc).good diligent (declared.heldValues held known)
  have leaves (c : Call) (hc : c ∈ calls) :
      ∃ r, c.record? options.policy = some r ∧ r.point = c.objective.point := by
    obtain ⟨r, verdict⟩ := good hc
    have left : c.record? options.policy = some r := by simp [Call.record?, verdict, Verdict.record?]
    exact ⟨r, left, (counted.genuine c hc).point diligent.faithful left⟩
  have failed : outcome.failed = 0 := by
    rw [accounts.failed, List.countP_eq_zero]
    intro c hc
    obtain ⟨r, verdict⟩ := good hc
    simp [verdict, Verdict.isFailure]
  have remaining := accounts.unlimited unlimited
  have points := counted.perm_points accounts d.nodup_names diligent.faithful empty remaining
    (accounts.nodup_called leaves)
  have measured : outcome.measured = calls.length := by
    have attempts := accounts.attempts
    omega
  apply whole_of_points declared held ?_ failed remaining
  · rw [← points_named, points.length_eq, List.length_map, measured]
  · rw [ResultSet.size, accounts.records, empty, List.nil_append, List.length_filterMap_eq_countP,
      measured, List.countP_eq_length]
    intro c hc
    obtain ⟨r, left, _⟩ := leaves c hc
    simp [left]
  · have total := accounts.total
    rw [← points_named, List.length_map]
    omega

/-- Whatever the measurer does, the skipped objectives of a sweep that ends well are the restored ones
and those whose point was covered on the way. With a faithful measurer there are none of the second
kind if no candidate is repeated; if one is, then every sweep that measures all of the domain has some. -/
theorem skipped_eq (t : Task μ) (files : Files.Tree) (memory : μ) (outcome : Outcome)
    (declared : t.config.domain.Declared) (held : t.config.domain.HeldCandidates)
    (ended : (run t files memory).result = .ok outcome) :
    ∃ restored there calls, Begins t files restored there ∧
      run t.logged files (memory, []) = ⟨.ok outcome, (run t files memory).files,
        ((run t files memory).memory, calls)⟩ ∧
      outcome.skipped = t.config.domain.named.countP (covered restored) +
        t.config.domain.named.countP (fun i =>
          !covered restored i && (covered outcome.results i && !asked calls i)) ∧
      (t.measurer.Faithful → t.config.domain.Unrepeated →
        outcome.skipped = t.config.domain.named.countP (covered restored)) ∧
      (restored.records = [] → t.options.limit = none → t.measurer.Diligent →
        Whole t.config.domain outcome) := by
  obtain ⟨restored, there, calls, begins, logged, accounts, counted⟩ := counted_of_run ended
  have split := counted.skipped_split accounts t.config.domain.nodup_names
  refine ⟨restored, there, calls, begins, logged, split, ?_, ?_⟩
  · intro faithful unrepeated
    have apart := (Domain.nodup_points_iff declared held).mpr unrepeated
    rw [← points_named] at apart
    rw [split, Nat.add_eq_left, List.countP_eq_zero]
    intro i hi
    cases there : covered restored i with
    | true => simp
    | false =>
      cases found : covered outcome.results i with
      | false => simp
      | true => simp [counted.asked_of_covered accounts faithful apart hi there found]
  · intro empty unlimited diligent
    exact whole declared held accounts counted empty unlimited diligent

/-- A sweep over a parameter that lists one candidate twice. -/
def repeating : Task Unit where
  config := ⟨some "demo", .standard, [],
    ⟨Table.empty.insert "m" (Table.empty.insert "a" (.categorical [.ofInt 1, .ofInt 1]))⟩⟩
  store := ⟨"checkpoints"⟩
  options := ⟨false, 1, .skip, none⟩
  time := "now"
  measurer name o _ memory := (.ok (.of name o .empty), memory)

theorem declared_repeating : repeating.config.domain.Declared :=
  @Domain.Declared.addParameter .empty _ "m" "a" (.categorical [.ofInt 1, .ofInt 1]) .empty rfl

theorem heldCandidates_repeating : repeating.config.domain.HeldCandidates := by
  intro m hm p hp j hj
  obtain rfl := List.mem_singleton.mp hm
  obtain rfl := List.mem_singleton.mp hp
  obtain rfl : j = .ofInt 1 := by simpa [ParameterKind.candidates] using hj
  exact Json.held_num (n := .int 1) ⟨by decide, by decide⟩

/-- The second objective is skipped though nothing was restored. -/
theorem skipped_eq_repeating : ∃ outcome, (run repeating .initial ()).result = .ok outcome ∧
    outcome.skipped = 1 ∧ repeating.config.domain.count = 2 ∧
    repeating.config.domain.Declared ∧ repeating.config.domain.HeldCandidates ∧
    ∃ restored there calls, Begins repeating .initial restored there ∧
      repeating.config.domain.named.countP (covered restored) = 0 ∧
      outcome.skipped = repeating.config.domain.named.countP (covered restored) +
        repeating.config.domain.named.countP (fun i =>
          !covered restored i && (covered outcome.results i && !asked calls i)) ∧
      Whole repeating.config.domain outcome := by
  have counts : (run repeating .initial ()).result.toOption.map Outcome.skipped = some 1 := by
    decide +kernel
  obtain ⟨outcome, ended, skipped⟩ := ok_of_toOption counts
  obtain ⟨restored, there, calls, begins, _, split, _, fresh⟩ := skipped_eq repeating .initial ()
    outcome declared_repeating heldCandidates_repeating ended
  obtain rfl : .empty = restored := Except.ok.inj (Prod.mk.inj (begins_iff.mp begins)).1
  have diligent : Measurer.Diligent repeating.measurer := by
    intro name o files memory
    exact ⟨.empty, by simp [SortedTable.empty], rfl⟩
  exact ⟨outcome, ended, skipped, rfl, declared_repeating, heldCandidates_repeating, .empty, there,
    calls, begins, rfl, split, fresh rfl rfl diligent⟩

end GridSweep.Sweep
