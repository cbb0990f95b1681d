import GridSweep.Proofs.Json.Tree
import GridSweep.Proofs.Results.Sorted
import GridSweep.Proofs.Sweep.Visit

namespace GridSweep.Sweep

/-- A measurement that knows nothing but the name of the run and the objective: metrics, or failure. -/
abbrev PureMeasure := String → Objective → Except SweepError (SortedTable Double)

def PureMeasure.answer (mu : PureMeasure) (name : String) (o : Objective) :
    Except SweepError RunRecord :=
  (mu name o).map (.of name o)

/-- The record that a measured objective adds to the results, if it adds one. -/
def addition (mu : PureMeasure) (policy : FailurePolicy) (item : String × Objective) :
    Option RunRecord :=
  match judge item.1 item.2 (mu.answer item.1 item.2) with
  | .good r => some r
  | .fatal _ => none
  | .failure => match policy with
    | .skip => none
    | .record => some (failedRecord item.1 item.2)

def isCovered (records : List RunRecord) (o : Objective) : Bool :=
  records.any fun r => r.point == (o.model, o.gridKey)

def extend (mu : PureMeasure) (policy : FailurePolicy) (records : List RunRecord)
    (item : String × Objective) : List RunRecord :=
  if isCovered records item.2 then records else records ++ (addition mu policy item).toList

def recordsOf (mu : PureMeasure) (policy : FailurePolicy) (items : List (String × Objective)) :
    List RunRecord :=
  items.foldl (extend mu policy) []

variable {mu : PureMeasure} {policy : FailurePolicy} {item : String × Objective}

theorem answer_eq_ok {name : String} {o : Objective} {r : RunRecord}
    (h : mu.answer name o = .ok r) : ∃ metrics, mu name o = .ok metrics ∧ r = .of name o metrics := by
  unfold PureMeasure.answer at h
  cases measured : mu name o with
  | error e =>
    rw [measured] at h
    cases h
  | ok metrics =>
    rw [measured] at h
    exact ⟨metrics, rfl, (Except.ok.inj h).symm⟩

/-- A record that is added is one of the objective under the name of the run: its metrics are those
that were measured and are finite, or it stands for a failure. -/
theorem addition_eq_some {r : RunRecord} (h : addition mu policy item = some r) :
    ∃ metrics, r = .of item.1 item.2 metrics ∧
      ((mu item.1 item.2 = .ok metrics ∧ ∀ e ∈ metrics.entries, e.2.isFinite = true) ∨
        metrics = SortedTable.empty.insert failedMetric .one) := by
  unfold addition at h
  split at h
  · rename_i judged
    cases h
    obtain ⟨answered, _, fine⟩ := judge_eq_good judged
    obtain ⟨metrics, measured, rfl⟩ := answer_eq_ok answered
    refine ⟨metrics, rfl, .inl ⟨measured, fun e he => ?_⟩⟩
    have finite := List.find?_eq_none.mp fine e he
    simpa using finite
  · cases h
  · split at h
    · cases h
    · cases h
      exact ⟨_, rfl, .inr rfl⟩

theorem name_of_addition {r : RunRecord} (h : addition mu policy item = some r) :
    r.name = item.1 := by
  obtain ⟨metrics, rfl, _⟩ := addition_eq_some h
  rfl

theorem point_of_addition {r : RunRecord} (h : addition mu policy item = some r) :
    r.point = (item.2.model, item.2.gridKey) := by
  obtain ⟨metrics, rfl, _⟩ := addition_eq_some h
  rfl

theorem recordsOf_append_singleton (items : List (String × Objective)) :
    recordsOf mu policy (items ++ [item]) = extend mu policy (recordsOf mu policy items) item :=
  List.foldl_append

theorem prefix_extend (records : List RunRecord) : records <+: extend mu policy records item := by
  unfold extend
  split
  · exact List.prefix_refl records
  · exact List.prefix_append _ _

theorem prefix_foldl_extend (items : List (String × Objective)) (records : List RunRecord) :
    records <+: items.foldl (extend mu policy) records := by
  induction items generalizing records with
  | nil => exact List.prefix_refl records
  | cons item rest ih => exact (prefix_extend records).trans (ih _)

theorem recordsOf_mono {items more : List (String × Objective)} (h : items <+: more) :
    recordsOf mu policy items <+: recordsOf mu policy more := by
  obtain ⟨rest, rfl⟩ := h
  rw [recordsOf, recordsOf, List.foldl_append]
  exact prefix_foldl_extend rest _

theorem isCovered_mono {records more : List RunRecord} (h : records <+: more) {o : Objective}
    (covered : isCovered records o = true) : isCovered more o = true := by
  obtain ⟨rest, rfl⟩ := h
  rw [isCovered, List.any_append, Bool.or_eq_true]
  exact .inl covered

theorem mem_recordsOf {items : List (String × Objective)} {r : RunRecord}
    (h : r ∈ recordsOf mu policy items) : ∃ item ∈ items, addition mu policy item = some r := by
  have all : ∀ (items : List (String × Objective)) (records : List RunRecord),
      r ∈ items.foldl (extend mu policy) records →
        r ∈ records ∨ ∃ item ∈ items, addition mu policy item = some r := by
    intro items
    induction items with
    | nil => exact fun records h => .inl h
    | cons item rest ih =>
      intro records h
      rcases ih _ h with known | ⟨later, hl, added⟩
      · unfold extend at known
        split at known
        · exact .inl known
        · rcases List.mem_append.mp known with known | new
          · exact .inl known
          · exact .inr ⟨item, List.mem_cons_self, Option.mem_toList.mp new⟩
      · exact .inr ⟨later, List.mem_cons_of_mem _ hl, added⟩
  rcases all items [] h with none | found
  · cases none
  · exact found

/-- An objective that was gone through and is not covered adds nothing, however often it is tried. -/
theorem addition_of_uncovered {items more : List (String × Objective)}
    (before : items ++ [item] <+: more)
    (open_ : isCovered (recordsOf mu policy more) item.2 = false) :
    addition mu policy item = none := by
  have uncovered (l : List RunRecord) (h : l <+: recordsOf mu policy more) :
      isCovered l item.2 = false := by
    rw [Bool.eq_false_iff]
    exact fun covered => Bool.eq_false_iff.mp open_ (isCovered_mono h covered)
  have grown : recordsOf mu policy (items ++ [item]) <+: recordsOf mu policy more :=
    recordsOf_mono before
  rw [recordsOf_append_singleton] at grown
  have first := uncovered _ ((prefix_extend _).trans grown)
  cases added : addition mu policy item with
  | none => rfl
  | some r =>
    rw [extend, first] at grown
    simp only [added, Option.toList_some, Bool.false_eq_true, if_false] at grown
    have last := uncovered _ grown
    rw [isCovered, List.any_append, Bool.or_eq_false_iff] at last
    have covers : ([r].any fun s => s.point == (item.2.model, item.2.gridKey)) = true := by
      rw [List.any_cons, point_of_addition added, beq_self_eq_true]
      rfl
    exact absurd (last.2.symm.trans covers) Bool.false_ne_true

/-- The results stand where a sweep through some objectives stands: they have its records, the order
of values and distributions aside. -/
def Stands (s : ResultSet) (records : List RunRecord) : Prop :=
  s.records.map RunRecord.sorted = records.map RunRecord.sorted

theorem Stands.contains {s : ResultSet} {records : List RunRecord} (stands : Stands s records)
    (o : Objective) : s.contains o.model o = isCovered records o := by
  have points (l : List RunRecord) : isCovered (l.map RunRecord.sorted) o = isCovered l o := by
    rw [isCovered, isCovered, List.any_map]
    exact congrArg l.any (funext fun r => by rw [Function.comp_apply, RunRecord.point_sorted])
  rw [s.contains_eq_any]
  show isCovered s.records o = _
  rw [← points, stands, points]

theorem Stands.names {s : ResultSet} {records : List RunRecord} (stands : Stands s records) :
    s.names = records.map RunRecord.name := by
  rw [ResultSet.names, ← ResultSet.names_map_sorted, stands, ResultSet.names_map_sorted]

theorem Stands.add {s : ResultSet} {records : List RunRecord} (stands : Stands s records)
    {r : RunRecord} (fresh : r.name ∉ records.map RunRecord.name) :
    ∃ t, s.add r = .ok t ∧ Stands t (records ++ [r]) := by
  rw [← stands.names] at fresh
  obtain ⟨t, added, grown⟩ := ResultSet.add_of_fresh fresh
  refine ⟨t, added, ?_⟩
  rw [Stands, grown, List.map_append, List.map_append, stands]

theorem settle_of_none {μ : Type} {t : Task μ} {name : String} {o : Objective} {p : Progress μ}
    (self : o.samePoint o = true) (none : addition mu t.options.policy (name, o) = none) :
    settle t name o p (judge name o (mu.answer name o)) =
      .ok { p with failed := p.failed + 1 } := by
  unfold addition at none
  split at none
  · cases none
  · rename_i e judged
    unfold judge at judged
    split at judged
    · cases judged
    · rename_i r answered
      obtain ⟨metrics, _, rfl⟩ := answer_eq_ok answered
      have answers_ : answers o (.of name o metrics) = true := by
        rw [answers, Bool.and_eq_true]
        exact ⟨beq_self_eq_true _, self⟩
      rw [answers_] at judged
      simp only [Bool.not_true, Bool.false_eq_true, if_false] at judged
      split at judged <;> cases judged
  · rename_i judged
    split at none
    · rename_i skips
      simp only [judged, settle, skips]
    · cases none

theorem settle_of_some {μ : Type} {t : Task μ} {name : String} {o : Objective} {p : Progress μ}
    {r : RunRecord} {results : ResultSet} (added : addition mu t.options.policy (name, o) = some r)
    (joins : p.results.add r = .ok results) :
    ∃ q, settle t name o p (judge name o (mu.answer name o)) = .ok q ∧ q.results = results ∧
      q.files = p.files ∧ q.memory = p.memory := by
  unfold addition at added
  split at added
  · rename_i judged
    cases added
    simp only [judged, settle, addRecord, joins]
    exact ⟨_, rfl, rfl, rfl, rfl⟩
  · cases added
  · rename_i judged
    split at added
    · cases added
    · rename_i records
      cases added
      simp only [judged, settle, records, addRecord, joins]
      exact ⟨_, rfl, rfl, rfl, rfl⟩

end GridSweep.Sweep
