import GridSweep.Proofs.Json.Rereading
import GridSweep.Proofs.Results.Decoding
import GridSweep.Proofs.Results.Storable

namespace GridSweep

open Decode

namespace Table

variable {α β : Type} {f : α → β}

def map (f : α → β) (t : Table α) : Table β :=
  ⟨Entries.mapValues f t.entries, by rw [Entries.keys_mapValues]; exact t.distinct⟩

theorem mem_sorted_map {t : Table α} {e : String × α} (he : e ∈ t.entries) :
    (e.1, f e.2) ∈ (t.map f).sorted.entries :=
  (t.map f).perm_sorted.mem_iff.mpr (List.mem_map_of_mem he)

theorem same_of_agrees_map {f : α → α} {same : α → α → Bool} {t : Table α}
    (agrees : (t.map f).sorted.agrees same t = true) : ∀ e ∈ t.entries, same (f e.2) e.2 = true := by
  intro e he
  rw [Table.agrees, Bool.and_eq_true, List.all_eq_true] at agrees
  have any := agrees.2 _ (mem_sorted_map he)
  have found : t.find? e.1 = some e.2 := Entries.find?_of_mem t.distinct he
  simpa [found] using any

end Table

def SortedTable.map {α β : Type} (f : α → β) (t : SortedTable α) : SortedTable β :=
  ⟨Entries.mapValues f t.entries, List.pairwise_map.mpr t.ascending⟩

namespace Json

theorem reread_ofEntries {α : Type} {encode : α → Json} {f : α → α}
    (each : ∀ x, (encode x).reread = encode (f x)) (entries : List (String × α)) :
    (ofEntries encode entries).reread = ofEntries encode (Entries.mapValues f entries) := by
  simp only [ofEntries, reread, rereadMembers_eq_mapValues, Entries.mapValues, List.map_map,
    Function.comp_def, each]

theorem mem_sorted_normalMembers {members : List (String × Json)} {name : String} {x : Json}
    (distinct : (members.map Prod.fst).Nodup) (mem : (name, x) ∈ members) :
    (name, x.normal) ∈ sorted (normalMembers members) :=
  (perm_normalMembers distinct).mem_iff.mpr (List.mem_map_of_mem mem)

theorem fails_double {c : Context} {x : Double} (infinite : x.isFinite = false) :
    Fails (double c (.ofJson (ofDouble x).normal)) := by
  rw [normal_ofDouble, ofDouble, infinite, if_neg Bool.false_ne_true]
  exact fails_throw _

theorem fails_entries_ofEntries {α β : Type} {d : Decoder β} {c : Context} {encode : α → Json}
    {entries : List (String × α)} (unlimited : c.limited = false)
    (distinct : (entries.map Prod.fst).Nodup) {e : String × α} (he : e ∈ entries)
    (fails : Fails (d c (.ofJson (encode e.2).normal))) :
    Fails (Decode.entries d c (.ofJson (ofEntries encode entries).normal)) := by
  rw [normal_ofEntries]
  have placed : (e.1, (encode e.2).normal) ∈
      Entries.mapValues (fun x => (encode x).normal) (SortedTable.ofList entries).entries :=
    List.mem_map.mpr ⟨e, (SortedTable.perm_ofList distinct).mem_iff.mpr he, rfl⟩
  exact fails_entries (Context.enter_of_unlimited unlimited) placed fails

end Json

variable {c : Context}

namespace Decode.Record

variable {σ α : Type} {r : Record σ α}

/-- In a place that does not limit nesting, a record is not read from the normal form of an object when
it refuses one of the members. -/
theorem Refuses.decoder_normal (name : String) (x : Json) {members : List (String × Json)}
    (refuses : r.Refuses c name x.normal) (unlimited : c.limited = false)
    (distinct : (members.map Prod.fst).Nodup) (mem : (name, x) ∈ members) (expected : String) :
    Fails (r.decoder expected c (.ofJson (Json.obj members).normal)) :=
  refuses.decoder (Context.enter_of_unlimited unlimited)
    (Json.mem_sorted_normalMembers distinct mem) expected

end Decode.Record

namespace Distribution

def reread (d : Distribution) : Distribution := ⟨d.mean.reread, d.stddev.reread⟩

theorem reread_encode (d : Distribution) : d.encode.reread = d.reread.encode := by
  simp only [encode, Json.reread, Json.rereadMembers, Json.reread_ofDouble, reread]

theorem fails_decoder {d : Distribution} (unlimited : c.limited = false)
    (infinite : ¬(d.mean.isFinite = true ∧ d.stddev.isFinite = true)) :
    Fails (decoder c (.ofJson d.encode.normal)) := by
  rw [encode]
  cases mean : d.mean.isFinite with
  | false =>
    have fails := Json.fails_double (c := c) mean
    exact Record.Refuses.decoder_normal "mean" (Json.ofDouble d.mean)
      (.map (.left (.field fails)) _) unlimited (by simp) (by simp) _
  | true =>
    have stddev : d.stddev.isFinite = false := by simpa [mean] using infinite
    have fails := Json.fails_double (c := c) stddev
    exact Record.Refuses.decoder_normal "stddev" (Json.ofDouble d.stddev)
      (.map (.right (.field fails) (by decide)) _) unlimited (by simp) (by simp) _

end Distribution

namespace Objective

def reread (o : Objective) : Objective :=
  ⟨o.model, o.values.map Json.reread, o.distributions.map Distribution.reread⟩

theorem reread_encode (o : Objective) : o.encode.reread = o.reread.encode := by
  have each (x : Json) : (id x).reread = id x.reread := rfl
  have values : o.encodeValues.reread = o.reread.encodeValues := Json.reread_ofEntries each _
  have distributions : o.encodeDistributions.reread = o.reread.encodeDistributions :=
    Json.reread_ofEntries Distribution.reread_encode _
  have empty : o.reread.distributions.isEmpty = o.distributions.isEmpty := List.isEmpty_map
  unfold encode
  rw [empty]
  split
  · simp only [List.append_nil, Json.reread, Json.rereadMembers, values]
    rfl
  · simp only [List.cons_append, List.nil_append, Json.reread, Json.rereadMembers, values,
      distributions]
    rfl

theorem HeldValues.reread {o : Objective} (held : o.HeldValues) : o.reread.HeldValues := by
  intro e he
  obtain ⟨d, hd, rfl⟩ := List.mem_map.mp he
  exact (held d hd).reread

theorem fails_decoder {o : Objective} (unlimited : c.limited = false) {e : String × Distribution}
    (he : e ∈ o.distributions.entries)
    (infinite : ¬(e.2.mean.isFinite = true ∧ e.2.stddev.isFinite = true)) :
    Fails (decoder c (.ofJson o.encode.normal)) := by
  have nonempty : o.distributions.isEmpty = false := by
    rw [Table.isEmpty, List.isEmpty_eq_false_iff]
    exact List.ne_nil_of_mem he
  have fails : Fails (table Distribution.decoder c (.ofJson o.encodeDistributions.normal)) :=
    (Json.fails_entries_ofEntries unlimited o.distributions.distinct he
      (Distribution.fails_decoder unlimited infinite)).map _
  rw [encode, nonempty, if_neg Bool.false_ne_true]
  exact Record.Refuses.decoder_normal "distributions" o.encodeDistributions
    (.map (.right (.right (.field fails) (by decide)) (by decide)) _) unlimited (by simp) (by simp) _

end Objective

namespace RunRecord

def reread (r : RunRecord) : RunRecord :=
  { r with objective := r.objective.reread, metrics := r.metrics.map Double.reread }

theorem reread_encode (r : RunRecord) : r.encode.reread = r.reread.encode := by
  have metrics : (Json.ofEntries Json.ofDouble r.metrics.entries).reread =
      Json.ofEntries Json.ofDouble r.reread.metrics.entries :=
    Json.reread_ofEntries Json.reread_ofDouble _
  simp only [encode, Json.reread, Json.rereadMembers, metrics, r.objective.reread_encode]
  rfl

theorem fails_decoder {r : RunRecord} (unlimited : c.limited = false)
    (held : r.objective.HeldValues) (infinite : ¬r.Finite) :
    Fails (decoder c (.ofJson r.encode.normal)) := by
  rw [encode]
  -- Held values are finite, so a distribution or else a metric is not.
  by_cases distributions : ∀ e ∈ r.objective.distributions.entries,
      e.2.mean.isFinite = true ∧ e.2.stddev.isFinite = true
  · obtain ⟨e, he, bad⟩ : ∃ e ∈ r.metrics.entries, e.2.isFinite = false := by
      by_contra none
      push Not at none
      exact infinite ⟨fun e he => (held e he).numbers, distributions,
        fun e he => Bool.not_eq_false _ ▸ none e he⟩
    have fails : Fails (sortedTable double c
        (.ofJson (Json.ofEntries Json.ofDouble r.metrics.entries).normal)) :=
      (Json.fails_entries_ofEntries unlimited (Entries.nodup_keys_of_ascending r.metrics.ascending) he
        (Json.fails_double bad)).map _
    exact Record.Refuses.decoder_normal "metrics"
      (Json.ofEntries Json.ofDouble r.metrics.entries)
      (.map (.right (.right (.right (.field fails) (by decide)) (by decide)) (by decide)) _)
      unlimited (by simp) (by simp) _
  · push Not at distributions
    obtain ⟨e, he, bad⟩ := distributions
    have fails := Objective.fails_decoder (c := c) unlimited he fun both => bad both.1 both.2
    exact Record.Refuses.decoder_normal "objective" r.objective.encode
      (.map (.right (.right (.left (.field fails)) (by decide)) (by decide)) _)
      unlimited (by simp) (by simp) _

/-- A record with finite numbers is what its text stands for if its text stands for finite numbers. -/
theorem finite_of_reread {r : RunRecord} (held : r.objective.HeldValues) (finite : r.reread.Finite) :
    r.Finite where
  values := fun e he => (held e he).numbers
  distributions := fun _ he =>
    (finite.distributions _ (List.mem_map_of_mem he)).imp Double.isFinite_of_reread
      Double.isFinite_of_reread
  metrics := fun _ he => Double.isFinite_of_reread (finite.metrics _ (List.mem_map_of_mem he))

theorem same_of_sameMetrics_reread {l : List (String × Double)}
    (same : sameMetrics (Entries.mapValues Double.reread l) l = true) :
    ∀ e ∈ l, e.2.reread.same e.2 = true := by
  refine each_of_compared (fun e rest both => ?_) same
  rw [sameMetrics, Bool.and_eq_true, Bool.and_eq_true] at both
  exact ⟨both.1.2, both.2⟩

theorem readsBack_of_same {r : RunRecord} (held : r.objective.HeldValues) (finite : r.reread.Finite)
    (same : r.reread.sorted.same r = true) : r.ReadsBack := by
  simp only [RunRecord.same, Objective.same, Objective.samePoint, Bool.and_eq_true] at same
  obtain ⟨⟨_, ⟨_, values⟩, distributions⟩, metrics⟩ := same
  intro x hx
  rcases mem_numbers_encode.mp hx with hx | ⟨e, he, hx⟩
  · rcases Objective.mem_numbers_encode.mp hx with ⟨e, he, hx⟩ | ⟨e, he, hx⟩
    · exact Json.readsBack_of_same_reread (held e he).numbers
        (Table.same_of_agrees_map values e he) x hx
    · have both := Table.same_of_agrees_map distributions e he
      rw [Distribution.same, Bool.and_eq_true] at both
      obtain ⟨mean, stddev⟩ := finite.distributions _ (List.mem_map_of_mem he)
      rcases Distribution.mem_numbers_encode.mp hx with hx | hx
      · rw [Json.eq_of_mem_ofDouble hx]
        exact Double.readsBack_of_same_reread mean both.1
      · rw [Json.eq_of_mem_ofDouble hx]
        exact Double.readsBack_of_same_reread stddev both.2
  · rw [Json.eq_of_mem_ofDouble hx]
    exact Double.readsBack_of_same_reread (finite.metrics _ (List.mem_map_of_mem he))
      (same_of_sameMetrics_reread metrics e he)

end RunRecord

namespace ResultSet

def reread (s : ResultSet) : ResultSet where
  records := s.records.map RunRecord.reread
  places := s.places
  places_eq := by
    have names : (s.records.map RunRecord.reread).map RunRecord.name =
        s.records.map RunRecord.name := List.map_map
    rw [names]
    exact s.places_eq
  points := Points.ofList ((s.records.map RunRecord.reread).map RunRecord.point)
  points_eq := rfl

theorem reread_encode (s : ResultSet) : s.encode.reread = s.reread.encode := by
  simp only [encode, Json.reread, Json.rereadItems_eq_map, reread, List.map_map, Function.comp_def,
    RunRecord.reread_encode]

theorem fails_decoder {s : ResultSet} (unlimited : c.limited = false) {r : RunRecord}
    (hr : r ∈ s.records) (held : r.objective.HeldValues) (infinite : ¬r.Finite) :
    Fails (decoder c (.ofJson s.encode.normal)) := by
  have items : s.encode.normal = .arr (s.records.map fun r => r.encode.normal) := by
    rw [encode, Json.normal, Json.normalItems_eq_map, List.map_map]
    rfl
  rw [items, decoder]
  exact (fails_list (Context.enter_of_unlimited unlimited) (List.mem_map_of_mem hr)
    (RunRecord.fails_decoder unlimited held infinite)).bind _

end ResultSet

end GridSweep
