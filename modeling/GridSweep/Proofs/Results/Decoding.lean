import GridSweep.Checkpoint.Payload
import GridSweep.Proofs.Decode.Record
import GridSweep.Proofs.Results.Sorted

namespace GridSweep

open Decode

namespace Json

theorem normal_obj (members : List (String × Json)) :
    (obj members).normal = obj (sorted (normalMembers members)) := rfl

theorem normal_ofEntries {α : Type} (encode : α → Json) (entries : List (String × α)) :
    (ofEntries encode entries).normal =
      obj (Entries.mapValues (fun x => (encode x).normal) (SortedTable.ofList entries).entries) := by
  have twice : Entries.mapValues normal (Entries.mapValues encode entries) =
      Entries.mapValues (fun x => (encode x).normal) entries := List.map_map
  show (obj (Entries.mapValues encode entries)).normal = _
  rw [normal_obj, normalMembers_eq_mapValues, twice, sorted, SortedTable.ofList_mapValues]

end Json

namespace Decode.Record

variable {σ α : Type} {c : Context}

theorem Yields.found_normal {f : Field α} {members : List (String × Json)} {x : Json} {a : α}
    (distinct : (members.map Prod.fst).Nodup) (found : Entries.find? f.key members = some x)
    (read : f.read c (.ofJson x.normal) = pure a) :
    (Record.field f).Yields c (Json.sorted (Json.normalMembers members)) a := by
  refine .found (Json.nodup_normalMembers members) ?_ read
  rw [Json.find?_normalMembers distinct, found, Option.map_some]

theorem Yields.absent_normal {f : Field α} {members : List (String × Json)} {a : α}
    (distinct : (members.map Prod.fst).Nodup) (missing : Entries.find? f.key members = none)
    (absent : f.absent = some a) :
    (Record.field f).Yields c (Json.sorted (Json.normalMembers members)) a := by
  refine .absent ?_ absent
  rw [Json.find?_normalMembers distinct, missing, Option.map_none]

end Decode.Record

variable {c : Context}

theorem value_normal {v : Json} (unlimited : c.limited = false) (held : v.Held) :
    value c (.ofJson v.normal) = pure v := by
  rw [held.normal]
  exact value_of_held held (c.admits_of_unlimited unlimited v.depth)

theorem double_ofDouble {x : Double} (finite : x.isFinite = true) :
    double c (.ofJson (Json.ofDouble x).normal) = pure x := by
  rw [Json.normal_ofDouble, Json.ofDouble, if_pos finite]
  rfl

theorem integer_ofInt {w : Width} {i : Int} (holds : w.holds i = true) :
    integer w c (.ofJson (Json.ofInt i).normal) = pure i := by
  simp only [Json.ofInt, Json.normal, Node.ofJson, integer, behind, holds, if_true]

theorem natural_ofNat {w : Width} {n : Nat} (holds : w.holds n = true) :
    natural w c (.ofJson (Json.ofNat n).normal) = pure n := by
  have read : integer w c (.ofJson (Json.ofNat n).normal) = pure (n : Int) := integer_ofInt holds
  rw [natural, read]
  rfl

theorem list_ofArr {α β : Type} {d : Decoder β} (encode : α → Json) (result : α → β) {l : List α}
    (unlimited : c.limited = false)
    (reads : ∀ x ∈ l, d c (.ofJson (encode x).normal) = pure (result x)) :
    list d c (.ofJson (Json.arr (l.map encode)).normal) = pure (l.map result) := by
  rw [Json.normal, Json.normalItems_eq_map, List.map_map]
  exact list_ofJson _ result (Context.enter_of_unlimited unlimited) reads

theorem table_ofEntries {α : Type} {d : Decoder α} (encode : α → Json) {t : Table α}
    (unlimited : c.limited = false)
    (reads : ∀ e ∈ t.entries, d c (.ofJson (encode e.2).normal) = pure e.2) :
    table d c (.ofJson (Json.ofEntries encode t.entries).normal) = pure t.sorted := by
  have read := entries_ofJson (fun x => (encode x).normal) id
    (Context.enter_of_unlimited unlimited) (d := d)
    fun e he => reads e (t.perm_sorted.mem_iff.mp he)
  have plain : Entries.mapValues id t.sorted.entries = t.sorted.entries := List.map_id _
  rw [Json.normal_ofEntries, table, show (SortedTable.ofList t.entries).entries =
    t.sorted.entries from rfl, read, plain]
  exact congrArg (pure : Table α → Read (Table α)) t.ofList_entries_sorted

namespace Distribution

theorem decoder_normal {d : Distribution} (unlimited : c.limited = false)
    (mean : d.mean.isFinite = true) (stddev : d.stddev.isFinite = true) :
    decoder c (.ofJson d.encode.normal) = pure d := by
  rw [encode, Json.normal_obj]
  refine Record.Yields.decoder ?_ (Context.enter_of_unlimited unlimited) _
  refine .map _ (.and (by decide) ?_ ?_)
  · exact .found_normal (by simp) rfl (double_ofDouble (c := c) mean)
  · exact .found_normal (by simp) rfl (double_ofDouble (c := c) stddev)

end Distribution

namespace Objective

theorem decoder_normal {o : Objective} (unlimited : c.limited = false) (values : o.HeldValues)
    (distributions : ∀ e ∈ o.distributions.entries,
      e.2.mean.isFinite = true ∧ e.2.stddev.isFinite = true) :
    decoder c (.ofJson o.encode.normal) = pure o.sorted := by
  have readValues : table value c (.ofJson o.encodeValues.normal) = pure o.values.sorted :=
    table_ofEntries id unlimited fun e he => value_normal unlimited (values e he)
  have readDistributions : table Distribution.decoder c (.ofJson o.encodeDistributions.normal) =
      pure o.distributions.sorted :=
    table_ofEntries Distribution.encode unlimited fun e he =>
      Distribution.decoder_normal unlimited (distributions e he).1 (distributions e he).2
  unfold encode
  by_cases empty : o.distributions.isEmpty
  · rw [if_pos empty, List.append_nil, Json.normal_obj]
    refine Record.Yields.decoder ?_ (Context.enter_of_unlimited unlimited) _
    have none : o.distributions.sorted = .empty := Table.sorted_of_isEmpty empty
    rw [sorted, none]
    refine .map _ (.and (by decide) ?_ (.and (by decide) ?_ ?_))
    · exact .found_normal (by simp) rfl rfl
    · exact .found_normal (by simp) rfl readValues
    · exact .absent_normal (by simp) rfl rfl
  · rw [if_neg empty, Json.normal_obj]
    refine Record.Yields.decoder ?_ (Context.enter_of_unlimited unlimited) _
    refine .map _ (.and (by decide) ?_ (.and (by decide) ?_ ?_))
    · exact .found_normal (by simp) rfl rfl
    · exact .found_normal (by simp) rfl readValues
    · exact .found_normal (by simp) rfl readDistributions

end Objective

namespace RunRecord

theorem metrics_ofEntries {t : SortedTable Double} (unlimited : c.limited = false)
    (finite : ∀ e ∈ t.entries, e.2.isFinite = true) :
    sortedTable double c (.ofJson (Json.ofEntries .ofDouble t.entries).normal) = pure t := by
  have back : SortedTable.ofList t.entries = t :=
    SortedTable.ext (SortedTable.entries_ofList_of_ascending t.ascending)
  have read : entries double c (.ofJson (.obj
      (Entries.mapValues (fun x => (Json.ofDouble x).normal) t.entries))) =
      pure (Entries.mapValues id t.entries) :=
    entries_ofJson _ id (Context.enter_of_unlimited unlimited)
      fun e he => double_ofDouble (c := c) (finite e he)
  have plain : Entries.mapValues id t.entries = t.entries := List.map_id _
  rw [Json.normal_ofEntries, back, sortedTable, read, plain]
  exact congrArg (pure : SortedTable Double → Read (SortedTable Double)) back

theorem decoder_normal {r : RunRecord} (unlimited : c.limited = false)
    (values : r.objective.HeldValues) (finite : r.Finite) :
    decoder c (.ofJson r.encode.normal) = pure r.sorted := by
  rw [encode, Json.normal_obj]
  refine Record.Yields.decoder ?_ (Context.enter_of_unlimited unlimited) _
  refine .map _ (.and (by decide) ?_ (.and (by decide) ?_ (.and (by decide) ?_ ?_)))
  · exact .found_normal (by simp) rfl rfl
  · exact .found_normal (by simp) rfl rfl
  · exact .found_normal (by simp) rfl
      (Objective.decoder_normal unlimited values finite.distributions)
  · exact .found_normal (by simp) rfl (metrics_ofEntries unlimited finite.metrics)

end RunRecord

namespace ResultSet

theorem foldlM_add (l : List RunRecord) (s : ResultSet)
    (distinct : ((s.records ++ l).map RunRecord.name).Nodup) :
    ∃ t, l.foldlM add s = .ok t ∧ t.records = s.records ++ l := by
  induction l generalizing s with
  | nil => exact ⟨s, rfl, (List.append_nil _).symm⟩
  | cons r rest ih =>
    have fresh : r.name ∉ s.names := by
      rw [List.map_append, List.nodup_append] at distinct
      exact fun known => distinct.2.2 _ known _ (by simp) rfl
    obtain ⟨s', added, grown⟩ := add_of_fresh fresh
    obtain ⟨t, folded, records⟩ := ih s' (by rwa [grown, List.append_assoc])
    refine ⟨t, ?_, by rw [records, grown, List.append_assoc]; rfl⟩
    rw [List.foldlM_cons, added]
    exact folded

theorem ofRecords_records (s : ResultSet) : ofRecords s.records = .ok s := by
  obtain ⟨t, folded, records⟩ := foldlM_add s.records empty s.distinct
  rw [ofRecords, folded]
  exact congrArg Except.ok (ext records)

theorem decoder_normal {s : ResultSet} (unlimited : c.limited = false)
    (values : ∀ r ∈ s.records, r.objective.HeldValues) (finite : ∀ r ∈ s.records, r.Finite) :
    decoder c (.ofJson s.encode.normal) = pure s.sorted := by
  have read : list RunRecord.decoder c (.ofJson s.encode.normal) =
      pure (s.records.map RunRecord.sorted) :=
    list_ofArr RunRecord.encode RunRecord.sorted unlimited fun r hr =>
      RunRecord.decoder_normal unlimited (values r hr) (finite r hr)
  have rebuilt : ofRecords (s.records.map RunRecord.sorted) = .ok s.sorted :=
    s.sorted.ofRecords_records
  rw [decoder, read, pure_bind, rebuilt]

end ResultSet

namespace Payload

theorem decoder_normal {p : Payload} {time : String} (unlimited : c.limited = false)
    (version : p.version ≤ 0xffffffff) (saved : p.savedAt = some time)
    (values : ∀ r ∈ p.results.records, r.objective.HeldValues)
    (finite : ∀ r ∈ p.results.records, r.Finite) :
    decoder c (.ofJson p.encode.normal) = pure { p with results := p.results.sorted } := by
  have holds : Width.u32.holds (p.version : Int) = true := by
    have low : Width.u32.low ≤ (p.version : Int) := Int.natCast_nonneg _
    have high : (p.version : Int) ≤ Width.u32.high := by
      show (p.version : Int) ≤ 0xffffffff
      omega
    rw [Width.holds, decide_eq_true low, decide_eq_true high]
    rfl
  rw [encode, saved, Json.normal_obj]
  refine Record.Yields.decoder ?_ (Context.enter_of_unlimited unlimited) _
  refine .map _ (.and (by decide) ?_ (.and (by decide) ?_ (.and (by decide) ?_ ?_)))
  · exact .found_normal (by simp [Json.ifAny]) rfl (natural_ofNat holds)
  · exact .found_normal (by simp [Json.ifAny]) rfl rfl
  · exact .found_normal (by simp [Json.ifAny]) rfl rfl
  · exact .found_normal (by simp [Json.ifAny]) rfl (ResultSet.decoder_normal unlimited values finite)

end Payload

end GridSweep
