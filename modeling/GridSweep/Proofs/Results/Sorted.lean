import GridSweep.Proofs.Objective
import GridSweep.Proofs.Results.Index

namespace GridSweep

namespace Table

variable {α : Type}

def sorted (t : Table α) : Table α :=
  ⟨(SortedTable.ofList t.entries).entries,
    Entries.nodup_keys_of_ascending (SortedTable.ofList t.entries).ascending⟩

theorem find?_sorted (t : Table α) (name : String) : t.sorted.find? name = t.find? name :=
  SortedTable.find?_ofList_of_distinct t.distinct name

theorem perm_sorted (t : Table α) : t.sorted.entries.Perm t.entries :=
  SortedTable.perm_ofList t.distinct

theorem ofList_sorted (t : Table α) :
    SortedTable.ofList t.sorted.entries = SortedTable.ofList t.entries :=
  SortedTable.ext (SortedTable.entries_ofList_of_ascending (SortedTable.ofList t.entries).ascending)

theorem sorted_sorted (t : Table α) : t.sorted.sorted = t.sorted :=
  ext (congrArg SortedTable.entries t.ofList_sorted)

theorem sorted_of_isEmpty {t : Table α} (empty : t.isEmpty = true) : t.sorted = .empty := by
  refine ext ?_
  rw [isEmpty, List.isEmpty_iff] at empty
  show (SortedTable.ofList t.entries).entries = []
  rw [empty]
  rfl

theorem ofList_entries_sorted (t : Table α) :
    ofList (SortedTable.ofList t.entries).entries = t.sorted :=
  ext (entries_ofList t.sorted.distinct)

theorem mem_entries_of_sorted {t u : Table α} (h : t.sorted = u.sorted) {e : String × α} :
    e ∈ t.entries ↔ e ∈ u.entries := by
  rw [← t.perm_sorted.mem_iff, h, u.perm_sorted.mem_iff]

theorem agrees_of_sorted {t u : Table α} (h : t.sorted = u.sorted) {same : α → α → Bool}
    (refl : ∀ e ∈ t.entries, same e.2 e.2 = true) : t.agrees same u = true := by
  have sizes : t.entries.length = u.entries.length := by
    rw [← t.perm_sorted.length_eq, h, u.perm_sorted.length_eq]
  rw [agrees, Bool.and_eq_true, beq_iff_eq]
  refine ⟨sizes, List.all_eq_true.mpr fun e he => ?_⟩
  rw [find?, Entries.find?_of_mem u.distinct ((mem_entries_of_sorted h).mp he)]
  exact refl e he

end Table

namespace Objective

def sorted (o : Objective) : Objective := ⟨o.model, o.values.sorted, o.distributions.sorted⟩

theorem gridKey_sorted (o : Objective) : o.sorted.gridKey = o.gridKey :=
  gridKey_inj.mpr ⟨rfl, fun name => congrArg (Option.map Json.canonical) (o.values.find?_sorted name)⟩

theorem sorted_sorted (o : Objective) : o.sorted.sorted = o.sorted := by
  simp only [sorted, Table.sorted_sorted]

/-- The numbers of an objective are finite, those in its values included. -/
structure Finite (o : Objective) : Prop where
  values : ∀ e ∈ o.values.entries, ∀ n ∈ e.2.numbers, n.Held
  distributions : ∀ e ∈ o.distributions.entries,
    e.2.mean.isFinite = true ∧ e.2.stddev.isFinite = true

theorem Finite.sorted {o : Objective} (finite : o.Finite) : o.sorted.Finite where
  values e he := finite.values e (o.values.perm_sorted.mem_iff.mp he)
  distributions e he := finite.distributions e (o.distributions.perm_sorted.mem_iff.mp he)

theorem same_of_sorted {a b : Objective} (h : a.sorted = b.sorted) (finite : a.Finite) :
    a.same b = true := by
  obtain ⟨model, values, distributions⟩ := a
  obtain ⟨model', values', distributions'⟩ := b
  simp only [sorted, mk.injEq] at h
  obtain ⟨rfl, sameValues, sameDistributions⟩ := h
  have valuesAgree : values.agrees Json.same values' = true :=
    Table.agrees_of_sorted sameValues fun e he => e.2.same_refl (finite.values e he)
  have distributionsAgree : distributions.agrees Distribution.same distributions' = true := by
    refine Table.agrees_of_sorted sameDistributions fun e he => ?_
    obtain ⟨mean, stddev⟩ := finite.distributions e he
    rw [Distribution.same, Double.same_refl mean, Double.same_refl stddev]
    rfl
  simp only [same, samePoint, valuesAgree, distributionsAgree, beq_self_eq_true, Bool.and_self]

end Objective

namespace RunRecord

def sorted (r : RunRecord) : RunRecord := { r with objective := r.objective.sorted }

@[simp] theorem name_sorted (r : RunRecord) : r.sorted.name = r.name := rfl

theorem point_sorted (r : RunRecord) : r.sorted.point = r.point :=
  congrArg (fun key => (r.model, key)) r.objective.gridKey_sorted

structure Finite (r : RunRecord) : Prop where
  values : ∀ e ∈ r.objective.values.entries, ∀ n ∈ e.2.numbers, n.Held
  distributions : ∀ e ∈ r.objective.distributions.entries,
    e.2.mean.isFinite = true ∧ e.2.stddev.isFinite = true
  metrics : ∀ e ∈ r.metrics.entries, e.2.isFinite = true

theorem Finite.objective {r : RunRecord} (finite : r.Finite) : r.objective.Finite :=
  ⟨finite.values, finite.distributions⟩

theorem Finite.sorted {r : RunRecord} (finite : r.Finite) : r.sorted.Finite where
  values := finite.objective.sorted.values
  distributions := finite.objective.sorted.distributions
  metrics := finite.metrics

theorem sameMetrics_refl {l : List (String × Double)} (finite : ∀ e ∈ l, e.2.isFinite = true) :
    sameMetrics l l = true := by
  induction l with
  | nil => rfl
  | cons e rest ih =>
    rw [sameMetrics, beq_self_eq_true, Double.same_refl (finite e List.mem_cons_self),
      Bool.true_and]
    exact ih fun f hf => finite f (List.mem_cons_of_mem _ hf)

theorem sorted_sorted (r : RunRecord) : r.sorted.sorted = r.sorted := by
  simp only [sorted, Objective.sorted, Table.sorted_sorted]

theorem same_of_sorted {r s : RunRecord} (h : r.sorted = s.sorted) (finite : r.Finite) :
    r.same s = true := by
  obtain ⟨name, model, objective, metrics⟩ := r
  obtain ⟨name', model', objective', metrics'⟩ := s
  simp only [sorted, mk.injEq] at h
  obtain ⟨rfl, rfl, objectives, rfl⟩ := h
  have agree := Objective.same_of_sorted objectives finite.objective
  simp only [same, agree, sameMetrics_refl finite.metrics, beq_self_eq_true, Bool.and_self]

end RunRecord

namespace ResultSet

theorem names_map_sorted (l : List RunRecord) :
    (l.map RunRecord.sorted).map RunRecord.name = l.map RunRecord.name := by
  rw [List.map_map]
  rfl

def sorted (s : ResultSet) : ResultSet where
  records := s.records.map RunRecord.sorted
  places := s.places
  places_eq := by
    rw [names_map_sorted]
    exact s.places_eq
  points := s.points
  points_eq := by
    have same : (s.records.map RunRecord.sorted).map RunRecord.point =
        s.records.map RunRecord.point := by
      simp [RunRecord.point_sorted]
    rw [same]
    exact s.points_eq

theorem sorted_sorted (s : ResultSet) : s.sorted.sorted = s.sorted := by
  refine ext ?_
  show (s.records.map RunRecord.sorted).map RunRecord.sorted = s.records.map RunRecord.sorted
  rw [List.map_map]
  exact List.map_congr_left fun r _ => r.sorted_sorted

theorem finite_sorted {s : ResultSet} (finite : ∀ r ∈ s.records, r.Finite) :
    ∀ r ∈ s.sorted.records, r.Finite :=
  List.forall_mem_map.mpr fun r hr => (finite r hr).sorted

theorem names_sorted (s : ResultSet) : s.sorted.names = s.names := names_map_sorted s.records

theorem contains_sorted (s : ResultSet) (model : String) (o : Objective) :
    s.sorted.contains model o = s.contains model o := rfl

theorem get_sorted (s : ResultSet) (name : String) :
    s.sorted.get name = (s.get name).map RunRecord.sorted := by
  cases got : s.get name with
  | ok r =>
    obtain ⟨known, named⟩ := get_eq_ok_iff.mp got
    exact get_eq_ok_iff.mpr ⟨List.mem_map_of_mem known, named⟩
  | error e =>
    obtain ⟨rfl, missing⟩ := get_eq_error_iff.mp got
    exact get_of_missing (by rwa [s.names_sorted])

theorem carrying_sorted (s : ResultSet) (metric : String) :
    s.sorted.carrying metric = (s.carrying metric).map fun p => (p.1.sorted, p.2) := by
  rw [carrying, carrying, sorted, List.filterMap_map, List.map_filterMap]
  refine congrArg (s.records.filterMap ·) (funext fun r => ?_)
  show (r.metric? metric).map (fun x => (r.sorted, x)) = _
  cases r.metric? metric <;> rfl

theorem foldl_better_map (d : Direction) (f : RunRecord → RunRecord)
    (l : List (RunRecord × Double)) (held : Option (RunRecord × Double)) :
    (l.map fun p => (f p.1, p.2)).foldl (better d) (held.map fun p => (f p.1, p.2)) =
      (l.foldl (better d) held).map fun p => (f p.1, p.2) := by
  induction l generalizing held with
  | nil => rfl
  | cons p rest ih =>
    have stepped : better d (held.map fun p => (f p.1, p.2)) (f p.1, p.2) =
        (better d held p).map fun p => (f p.1, p.2) := by
      cases held with
      | none => rfl
      | some best =>
        simp only [better, Option.map_some]
        split <;> rfl
    rw [List.map_cons, List.foldl_cons, List.foldl_cons, stepped]
    exact ih _

theorem best_sorted (s : ResultSet) (metric : String) (d : Direction) :
    s.sorted.best metric d = (s.best metric d).map RunRecord.sorted := by
  have empty : s.sorted.isEmpty = s.isEmpty := by
    rw [isEmpty, isEmpty, sorted, List.isEmpty_map]
  have size : s.sorted.size = s.size := List.length_map _
  have folded := foldl_better_map d RunRecord.sorted (s.carrying metric) none
  rw [Option.map_none] at folded
  rw [best, best, empty, size, carrying_sorted, folded]
  split
  · rfl
  · cases (s.carrying metric).foldl (better d) none <;> rfl

theorem top_sorted (s : ResultSet) (metric : String) (d : Direction) (n : Nat) :
    s.sorted.top metric d n = (s.top metric d n).map RunRecord.sorted := by
  have sorted := List.map_mergeSort (l := s.carrying metric)
    (r := fun a b => d.prefers a.2 b.2) (s := fun a b => d.prefers a.2 b.2)
    (f := fun p : RunRecord × Double => (p.1.sorted, p.2)) fun _ _ _ _ => rfl
  rw [top, top, carrying_sorted, ← sorted, ← List.map_take, List.map_map, List.map_map]
  rfl

def SameAnswer : Except Fault RunRecord → Except Fault RunRecord → Prop
  | .ok r, .ok s => r.same s = true
  | .error e, .error f => e = f
  | _, _ => False

/-- The first set equals the second and answers every query alike. -/
structure AnswersLike (s t : ResultSet) : Prop where
  same : s.same t = true
  names : s.names = t.names
  get : ∀ name, SameAnswer (s.get name) (t.get name)
  contains : ∀ model o, s.contains model o = t.contains model o
  best : ∀ metric d, SameAnswer (s.best metric d) (t.best metric d)
  top : ∀ metric d n, sameRecords (s.top metric d n) (t.top metric d n) = true

theorem sameRecords_of_sorted {l m : List RunRecord}
    (h : l.map RunRecord.sorted = m.map RunRecord.sorted) (finite : ∀ r ∈ l, r.Finite) :
    sameRecords l m = true := by
  induction l generalizing m with
  | nil =>
    cases m with
    | nil => rfl
    | cons r rest => cases h
  | cons r rest ih =>
    cases m with
    | nil => cases h
    | cons r' rest' =>
      obtain ⟨first, later⟩ := List.cons.inj h
      rw [sameRecords, RunRecord.same_of_sorted first (finite r List.mem_cons_self), Bool.true_and]
      exact ih later fun t ht => finite t (List.mem_cons_of_mem _ ht)

theorem sameAnswer_of_sorted {a b : Except Fault RunRecord}
    (h : a.map RunRecord.sorted = b.map RunRecord.sorted) (finite : ∀ r, a = .ok r → r.Finite) :
    SameAnswer a b := by
  cases a with
  | error e =>
    cases b with
    | error f => exact Except.error.inj h
    | ok r => cases h
  | ok r =>
    cases b with
    | error f => cases h
    | ok r' => exact RunRecord.same_of_sorted (Except.ok.inj h) (finite r rfl)

theorem mem_of_get {s : ResultSet} {name : String} {r : RunRecord} (h : s.get name = .ok r) :
    r ∈ s.records :=
  (get_eq_ok_iff.mp h).1

theorem mem_of_carrying {s : ResultSet} {metric : String} {p : RunRecord × Double}
    (h : p ∈ s.carrying metric) : p.1 ∈ s.records := by
  rw [carrying, List.mem_filterMap] at h
  obtain ⟨r, known, found⟩ := h
  rw [Option.map_eq_some_iff] at found
  obtain ⟨x, _, rfl⟩ := found
  exact known

theorem mem_of_better {d : Direction} {l : List (RunRecord × Double)}
    {held : Option (RunRecord × Double)} {p : RunRecord × Double}
    (h : l.foldl (better d) held = some p) : held = some p ∨ p ∈ l := by
  induction l generalizing held with
  | nil => exact .inl h
  | cons q rest ih =>
    rcases ih h with stepped | later
    · cases held with
      | none =>
        cases stepped
        exact .inr List.mem_cons_self
      | some best =>
        simp only [better] at stepped
        split at stepped
        · exact .inl stepped
        · cases stepped
          exact .inr List.mem_cons_self
    · exact .inr (List.mem_cons_of_mem _ later)

theorem mem_of_best {s : ResultSet} {metric : String} {d : Direction} {r : RunRecord}
    (h : s.best metric d = .ok r) : r ∈ s.records := by
  unfold best at h
  split at h
  · cases h
  · split at h
    · rename_i p found
      cases h
      rcases mem_of_better found with none | known
      · cases none
      · exact mem_of_carrying known
    · cases h

theorem mem_of_top {s : ResultSet} {metric : String} {d : Direction} {n : Nat} {r : RunRecord}
    (h : r ∈ s.top metric d n) : r ∈ s.records := by
  rw [top, List.mem_map] at h
  obtain ⟨p, taken, rfl⟩ := h
  exact mem_of_carrying (List.mem_mergeSort.mp (List.mem_of_mem_take taken))

theorem answersLike_of_sorted {s t : ResultSet} (h : s.sorted = t.sorted)
    (finite : ∀ r ∈ s.records, r.Finite) : s.AnswersLike t where
  same := sameRecords_of_sorted (congrArg records h) finite
  names := by
    rw [← names_sorted s, h, names_sorted t]
  get name := by
    refine sameAnswer_of_sorted ?_ fun r answer => finite r (mem_of_get answer)
    rw [← get_sorted, h, get_sorted]
  contains model o := by
    rw [← contains_sorted s, h, contains_sorted t]
  best metric d := by
    refine sameAnswer_of_sorted ?_ fun r answer => finite r (mem_of_best answer)
    rw [← best_sorted, h, best_sorted]
  top metric d n := by
    refine sameRecords_of_sorted ?_ fun r taken => finite r (mem_of_top taken)
    rw [← top_sorted, h, top_sorted]

end ResultSet

end GridSweep
