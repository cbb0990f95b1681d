import GridSweep.Proofs.Checkpoint.RoundTrip

namespace GridSweep

open Decode

namespace Decode

variable {σ α : Type} {c : Context} {d : Decoder α} {encode : α → Json}

/-- Wherever nesting allows the encoding of the value to stand, it is read as the value. -/
def Recovers (d : Decoder α) (encode : α → Json) (a : α) : Prop :=
  ∀ c : Context, c.Admits (encode a).depth → d c (.ofJson (encode a)) = pure a

theorem Record.Yields.found_within {f : Field α} {members : List (String × Json)} {x : Json} {a : α}
    (admits : c.Admits (Json.membersDepth members)) (distinct : (members.map Prod.fst).Nodup)
    (found : Entries.find? f.key members = some x)
    (read : c.Admits x.depth → f.read c (.ofJson x) = pure a) : (Record.field f).Yields c members a :=
  .found distinct found
    (read (admits.mono (Json.depth_le_membersDepth (Entries.mem_of_find? found))))

theorem Record.Yields.decoder_within {r : Record σ α} {members : List (String × Json)} {a : α}
    (admits : c.Admits (Json.obj members).depth)
    (yields : ∀ inner : Context, inner.Admits (Json.membersDepth members) → r.Yields inner members a)
    (expected : String) : r.decoder expected c (.ofJson (.obj members)) = pure a := by
  obtain ⟨inner, entered, _, deeper⟩ := Context.Admits.enter admits
  exact (yields inner deeper).decoder entered expected

theorem recovers_entries {l : List (String × α)} (each : ∀ e ∈ l, Recovers d encode e.2) :
    Recovers (entries d) (Json.ofEntries encode) l := by
  intro c admits
  obtain ⟨inner, entered, _, deeper⟩ := Context.Admits.enter admits
  have read := entries_ofJson encode id entered fun e he =>
    have known : (e.1, encode e.2) ∈ l.map fun e => (e.1, encode e.2) := List.mem_map_of_mem he
    each e he inner (deeper.mono (Json.depth_le_membersDepth known))
  have plain : Entries.mapValues id l = l := List.map_id _
  rwa [plain] at read

theorem recovers_table {t : Table α} (each : ∀ e ∈ t.entries, Recovers d encode e.2) :
    Recovers (table d) (fun t => Json.ofEntries encode t.entries) t := by
  intro c admits
  have back : Table.ofList t.entries = t := Table.ext (Table.entries_ofList t.distinct)
  rw [table, recovers_entries each c admits]
  exact congrArg (pure : Table α → Read (Table α)) back

theorem recovers_sortedTable {t : SortedTable α} (each : ∀ e ∈ t.entries, Recovers d encode e.2) :
    Recovers (sortedTable d) (fun t => Json.ofEntries encode t.entries) t := by
  intro c admits
  have back : SortedTable.ofList t.entries = t :=
    SortedTable.ext (SortedTable.entries_ofList_of_ascending t.ascending)
  rw [sortedTable, recovers_entries each c admits]
  exact congrArg (pure : SortedTable α → Read (SortedTable α)) back

theorem recovers_list {l : List α} (each : ∀ x ∈ l, Recovers d encode x) :
    Recovers (list d) (fun l => .arr (l.map encode)) l := by
  intro c admits
  obtain ⟨inner, entered, _, deeper⟩ := Context.Admits.enter admits
  have read := list_ofJson encode id entered fun x hx =>
    each x hx inner (deeper.mono (Json.depth_le_itemsDepth (List.mem_map_of_mem hx)))
  rwa [List.map_id] at read

theorem recovers_double {x : Double} (finite : x.isFinite = true) :
    Recovers double Json.ofDouble x := by
  intro c _
  rw [← Json.normal_ofDouble]
  exact double_ofDouble finite

end Decode

theorem Distribution.recovers {d : Distribution} (mean : d.mean.isFinite = true)
    (stddev : d.stddev.isFinite = true) : Recovers decoder encode d := by
  intro c admits
  refine Record.Yields.decoder_within admits (fun inner deeper => ?_) _
  refine .map _ (.and (by decide) ?_ ?_)
  · exact .found_within deeper (by simp) rfl (recovers_double mean inner)
  · exact .found_within deeper (by simp) rfl (recovers_double stddev inner)

theorem Objective.recovers {o : Objective} (values : o.HeldValues)
    (distributions : ∀ e ∈ o.distributions.entries,
      e.2.mean.isFinite = true ∧ e.2.stddev.isFinite = true) : Recovers decoder encode o := by
  have readValues : Recovers (table value) (fun t => Json.ofEntries id t.entries) o.values :=
    recovers_table fun e he inner => value_of_held (values e he)
  have readDistributions : Recovers (table Distribution.decoder)
      (fun t => Json.ofEntries Distribution.encode t.entries) o.distributions :=
    recovers_table fun e he => Distribution.recovers (distributions e he).1 (distributions e he).2
  intro c admits
  refine Record.Yields.decoder_within admits (fun inner deeper => ?_) _
  by_cases empty : o.distributions.isEmpty
  · have none : o.distributions = .empty := Table.ext (List.isEmpty_iff.mp empty)
    rw [if_pos empty, List.append_nil] at deeper ⊢
    obtain ⟨model, values, distributions⟩ := o
    subst none
    refine .map _ (.and (by decide) ?_ (.and (by decide) ?_ ?_))
    · exact .found (by simp) rfl rfl
    · exact .found_within deeper (by simp) rfl (readValues inner)
    · exact .absent rfl rfl
  · rw [if_neg empty] at deeper ⊢
    refine .map _ (.and (by decide) ?_ (.and (by decide) ?_ ?_))
    · exact .found (by simp) rfl rfl
    · exact .found_within deeper (by simp) rfl (readValues inner)
    · exact .found_within deeper (by simp) rfl (readDistributions inner)

theorem RunRecord.recovers {r : RunRecord} (values : r.objective.HeldValues) (finite : r.Finite) :
    Recovers decoder encode r := by
  have objective := Objective.recovers values finite.distributions
  have metrics := recovers_sortedTable fun e he => recovers_double (finite.metrics e he)
  intro c admits
  refine Record.Yields.decoder_within admits (fun inner deeper => ?_) _
  refine .map _ (.and (by decide) ?_ (.and (by decide) ?_ (.and (by decide) ?_ ?_)))
  · exact .found (by simp) rfl rfl
  · exact .found (by simp) rfl rfl
  · exact .found_within deeper (by simp) rfl (objective inner)
  · exact .found_within deeper (by simp) rfl (metrics inner)

namespace ResultSet

theorem recovers {s : ResultSet} (values : ∀ r ∈ s.records, r.objective.HeldValues)
    (finite : ∀ r ∈ s.records, r.Finite) : Recovers decoder encode s := by
  have records := recovers_list fun r hr => RunRecord.recovers (values r hr) (finite r hr)
  intro c admits
  have read : list RunRecord.decoder c (.ofJson s.encode) = pure s.records := records c admits
  rw [decoder, read, pure_bind, s.ofRecords_records]

theorem ofModel_sorted (s : ResultSet) (model : String) :
    s.sorted.ofModel model = (s.ofModel model).map RunRecord.sorted := by
  rw [ofModel, ofModel, sorted, List.filter_map]
  rfl

/-- A set is read from its own text as it was, so it is written as that text again. From its own JSON
value comes an equal set that answers every query alike, whatever its values nest. -/
theorem decode_encode (s : ResultSet) :
    ((∀ r ∈ s.records, r.Storable ∧ r.ReadsBack) →
      Json.decodeText decoder s.encode.compact = .ok s) ∧
    ((∀ r ∈ s.records, r.objective.HeldValues ∧ r.Finite) →
      ∃ t, Json.decodeValue decoder s.encode.normal = .ok t ∧ t.AnswersLike s ∧
        ∀ model, sameRecords (t.ofModel model) (s.ofModel model) = true) := by
  constructor
  · intro kept
    have storable : ∀ r ∈ s.records, r.Storable := fun r hr => (kept r hr).1
    have floats : ∀ x, Number.float x ∈ s.encode.numbers → x.ReadsBack := by
      intro x hx
      obtain ⟨r, hr, hx⟩ := mem_numbers_encode.mp hx
      exact (kept r hr).2 x hx
    have back := Json.readsBack_of_held (fun _ => held_encode storable) floats
    have shallow : Context.text.Admits s.encode.depth := fun _ =>
      Nat.le_succ_of_le (depth_encode_le storable)
    have read : decoder .text (.ofJson s.encode) = pure s :=
      recovers (fun r hr => (storable r hr).held) (fun r hr => (storable r hr).finite) .text shallow
    simp only [Json.decodeText, Json.ofText_compact back, Json.Document.decode,
      decodeTree_of_pure read]
    rfl
  · intro kept
    have finite := finite_sorted fun r hr => (kept r hr).2
    have read : decoder .value (.ofJson s.encode.normal) = pure s.sorted :=
      decoder_normal rfl (fun r hr => (kept r hr).1) fun r hr => (kept r hr).2
    refine ⟨s.sorted, decodeTree_of_pure read 0, answersLike_of_sorted s.sorted_sorted finite, ?_⟩
    intro model
    refine sameRecords_of_sorted ?_ fun r hr => finite r (List.mem_filter.mp hr).1
    rw [ofModel_sorted, List.map_map]
    exact List.map_congr_left fun r _ => r.sorted_sorted

def emptyRecord : RunRecord := ⟨"s", "m", ⟨"m", .empty, .empty⟩, .empty⟩

/-- Values that descend, a record of another model than its objective's, and one that has none. -/
def mixedAndEmpty : ResultSet :=
  ⟨[Store.mixedRecord, emptyRecord], .ofList [("r", 0), ("s", 1)], rfl,
    [Store.mixedRecord.point, emptyRecord.point], rfl⟩

theorem decode_encode_mixedAndEmpty :
    Json.decodeText decoder mixedAndEmpty.encode.compact = .ok mixedAndEmpty ∧
    ∃ t, Json.decodeValue decoder mixedAndEmpty.encode.normal = .ok t ∧
      t.AnswersLike mixedAndEmpty := by
  have kept : ∀ r ∈ mixedAndEmpty.records, r.Storable ∧ r.ReadsBack := by
    refine List.forall_mem_cons.mpr ⟨⟨Store.storable_mixedRecord, ?_⟩, ?_⟩
    · exact Store.readsBack_mixedResults _ List.mem_cons_self
    · exact List.forall_mem_singleton.mpr ⟨⟨nofun, nofun, nofun, nofun⟩, nofun⟩
  obtain ⟨text, value⟩ := decode_encode mixedAndEmpty
  obtain ⟨t, read, answers, _⟩ := value fun r hr => ⟨(kept r hr).1.held, (kept r hr).1.finite⟩
  exact ⟨text kept, t, read, answers⟩

end ResultSet

end GridSweep
