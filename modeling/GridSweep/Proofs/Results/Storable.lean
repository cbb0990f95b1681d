import GridSweep.Proofs.Json.Numerals
import GridSweep.Proofs.Results.Sorted

namespace GridSweep

open Json

namespace Json

theorem mem_numbers_ofEntries {α : Type} {encode : α → Json} {entries : List (String × α)}
    {n : Number} :
    n ∈ (ofEntries encode entries).numbers ↔ ∃ e ∈ entries, n ∈ (encode e.2).numbers := by
  rw [ofEntries, numbers, mem_memberNumbers]
  constructor
  · rintro ⟨_, he, hn⟩
    obtain ⟨e, known, rfl⟩ := List.mem_map.mp he
    exact ⟨e, known, hn⟩
  · rintro ⟨e, known, hn⟩
    exact ⟨_, List.mem_map_of_mem known, hn⟩

theorem depth_ofEntries_le {α : Type} {encode : α → Json} {entries : List (String × α)} {n : Nat}
    (h : ∀ e ∈ entries, (encode e.2).depth ≤ n) : (ofEntries encode entries).depth ≤ n + 1 := by
  rw [ofEntries, depth]
  refine Nat.succ_le_succ (membersDepth_le fun e he => ?_)
  obtain ⟨entry, known, rfl⟩ := List.mem_map.mp he
  exact h entry known

end Json

namespace Distribution

theorem mem_numbers_encode {d : Distribution} {n : Number} :
    n ∈ d.encode.numbers ↔ n ∈ (ofDouble d.mean).numbers ∨ n ∈ (ofDouble d.stddev).numbers := by
  simp [encode, numbers, memberNumbers]

theorem held_encode {d : Distribution} {n : Number} (h : n ∈ d.encode.numbers) : n.Held := by
  rcases mem_numbers_encode.mp h with h | h
  · exact held_ofDouble h
  · exact held_ofDouble h

theorem depth_encode_le (d : Distribution) : d.encode.depth ≤ 1 := by
  simp [encode, depth, membersDepth, depth_ofDouble]

end Distribution

namespace Objective

theorem mem_numbers_encode {o : Objective} {n : Number} :
    n ∈ o.encode.numbers ↔ (∃ e ∈ o.values.entries, n ∈ e.2.numbers) ∨
      ∃ e ∈ o.distributions.entries, n ∈ e.2.encode.numbers := by
  have values : n ∈ o.encodeValues.numbers ↔ ∃ e ∈ o.values.entries, n ∈ e.2.numbers :=
    mem_numbers_ofEntries
  have distributions : n ∈ o.encodeDistributions.numbers ↔
      ∃ e ∈ o.distributions.entries, n ∈ e.2.encode.numbers := mem_numbers_ofEntries
  rw [← values, ← distributions]
  by_cases empty : o.distributions.isEmpty
  · have none : o.distributions.entries = [] := List.isEmpty_iff.mp empty
    simp [encode, empty, numbers, memberNumbers, encodeDistributions, ofEntries, none]
  · simp [encode, empty, numbers, memberNumbers]

theorem held_encode {o : Objective} (held : o.HeldValues) {n : Number} (h : n ∈ o.encode.numbers) :
    n.Held := by
  rcases mem_numbers_encode.mp h with ⟨e, he, h⟩ | ⟨e, -, h⟩
  · exact (held e he).numbers n h
  · exact Distribution.held_encode h

theorem depth_encode_le {o : Objective} {n : Nat} (shallow : ∀ e ∈ o.values.entries, e.2.depth ≤ n)
    (some : 0 < n) : o.encode.depth ≤ n + 2 := by
  have values : o.encodeValues.depth ≤ n + 1 := @depth_ofEntries_le _ id _ _ shallow
  have distributions : o.encodeDistributions.depth ≤ 2 :=
    depth_ofEntries_le fun d _ => d.2.depth_encode_le
  rw [encode, depth]
  refine Nat.succ_le_succ (membersDepth_le fun e he => ?_)
  split at he <;> simp only [List.append_nil, List.cons_append, List.nil_append, List.mem_cons,
    List.not_mem_nil, or_false] at he
  · rcases he with rfl | rfl
    · exact Nat.zero_le _
    · exact values
  · rcases he with rfl | rfl | rfl
    · exact Nat.zero_le _
    · exact values
    · exact Nat.le_trans distributions (Nat.succ_le_succ some)

end Objective

namespace RunRecord

/-- What a checkpoint can keep of a record: values that JSON libraries hold and that nest no deeper
than the readers of texts allow, and finite numbers. -/
structure Storable (r : RunRecord) : Prop where
  held : ∀ e ∈ r.objective.values.entries, e.2.Held
  shallow : ∀ e ∈ r.objective.values.entries, e.2.depth ≤ 122
  distributions : ∀ e ∈ r.objective.distributions.entries,
    e.2.mean.isFinite = true ∧ e.2.stddev.isFinite = true
  metrics : ∀ e ∈ r.metrics.entries, e.2.isFinite = true

def ReadsBack (r : RunRecord) : Prop := ∀ x, Number.float x ∈ r.encode.numbers → x.ReadsBack

theorem Storable.finite {r : RunRecord} (h : r.Storable) : r.Finite :=
  ⟨fun e he => (h.held e he).numbers, h.distributions, h.metrics⟩

theorem mem_numbers_encode {r : RunRecord} {n : Number} :
    n ∈ r.encode.numbers ↔ n ∈ r.objective.encode.numbers ∨
      ∃ e ∈ r.metrics.entries, n ∈ (ofDouble e.2).numbers := by
  rw [← mem_numbers_ofEntries]
  simp [encode, numbers, memberNumbers]

theorem held_encode {r : RunRecord} (h : r.Storable) {n : Number} (hn : n ∈ r.encode.numbers) :
    n.Held := by
  rcases mem_numbers_encode.mp hn with hn | ⟨m, _, hn⟩
  · exact Objective.held_encode h.held hn
  · exact held_ofDouble hn

theorem depth_encode_le {r : RunRecord} (h : r.Storable) : r.encode.depth ≤ 125 := by
  rw [encode, depth]
  refine Nat.succ_le_succ (membersDepth_le fun e he => ?_)
  simp only [List.mem_cons, List.not_mem_nil, or_false] at he
  rcases he with rfl | rfl | rfl | rfl
  · exact Nat.zero_le _
  · exact Nat.zero_le _
  · exact Objective.depth_encode_le h.shallow (by decide)
  · exact Nat.le_trans (depth_ofEntries_le fun m _ => Nat.le_of_eq (depth_ofDouble m.2)) (by decide)

theorem parts_of_sorted {r s : RunRecord} (h : r.sorted = s.sorted) :
    r.objective.values.sorted = s.objective.values.sorted ∧
      r.objective.distributions.sorted = s.objective.distributions.sorted ∧
      r.metrics = s.metrics :=
  ⟨congrArg (·.objective.values) h, congrArg (·.objective.distributions) h,
    congrArg (·.metrics) h⟩

theorem Storable.of_sorted {r s : RunRecord} (storable : s.Storable) (h : r.sorted = s.sorted) :
    r.Storable := by
  obtain ⟨values, distributions, metrics⟩ := parts_of_sorted h
  refine ⟨fun e he => ?_, fun e he => ?_, fun e he => ?_, fun e he => ?_⟩
  · exact storable.held e ((Table.mem_entries_of_sorted values).mp he)
  · exact storable.shallow e ((Table.mem_entries_of_sorted values).mp he)
  · exact storable.distributions e ((Table.mem_entries_of_sorted distributions).mp he)
  · exact storable.metrics e (metrics ▸ he)

theorem ReadsBack.of_sorted {r s : RunRecord} (back : s.ReadsBack) (h : r.sorted = s.sorted) :
    r.ReadsBack := by
  obtain ⟨values, distributions, metrics⟩ := parts_of_sorted h
  intro x hx
  refine back x (mem_numbers_encode.mpr ?_)
  rcases mem_numbers_encode.mp hx with hx | ⟨e, he, hx⟩
  · refine .inl (Objective.mem_numbers_encode.mpr ?_)
    rcases Objective.mem_numbers_encode.mp hx with ⟨e, he, hx⟩ | ⟨e, he, hx⟩
    · exact .inl ⟨e, (Table.mem_entries_of_sorted values).mp he, hx⟩
    · exact .inr ⟨e, (Table.mem_entries_of_sorted distributions).mp he, hx⟩
  · exact .inr ⟨e, metrics ▸ he, hx⟩

end RunRecord

namespace ResultSet

theorem mem_numbers_encode {s : ResultSet} {n : Number} :
    n ∈ s.encode.numbers ↔ ∃ r ∈ s.records, n ∈ r.encode.numbers := by
  rw [encode, numbers, mem_itemNumbers]
  constructor
  · rintro ⟨_, hj, hn⟩
    obtain ⟨r, hr, rfl⟩ := List.mem_map.mp hj
    exact ⟨r, hr, hn⟩
  · rintro ⟨r, hr, hn⟩
    exact ⟨_, List.mem_map_of_mem hr, hn⟩

theorem held_encode {s : ResultSet} (storable : ∀ r ∈ s.records, r.Storable) {n : Number}
    (h : n ∈ s.encode.numbers) : n.Held := by
  obtain ⟨r, hr, hn⟩ := mem_numbers_encode.mp h
  exact RunRecord.held_encode (storable r hr) hn

theorem sorted_same {s : ResultSet} (storable : ∀ r ∈ s.records, r.Storable) :
    s.sorted.same s = true :=
  have finite := finite_sorted fun r hr => (storable r hr).finite
  (answersLike_of_sorted s.sorted_sorted finite).same

theorem depth_encode_le {s : ResultSet} (storable : ∀ r ∈ s.records, r.Storable) :
    s.encode.depth ≤ 126 := by
  rw [encode, depth]
  refine Nat.succ_le_succ (itemsDepth_le fun j hj => ?_)
  obtain ⟨r, hr, rfl⟩ := List.mem_map.mp hj
  exact RunRecord.depth_encode_le (storable r hr)

end ResultSet

end GridSweep
