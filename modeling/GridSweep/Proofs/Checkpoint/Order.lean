import GridSweep.Proofs.Checkpoint.RoundTrip
import GridSweep.Proofs.Json.Identity

namespace GridSweep

namespace Table

variable {α : Type} {t : Table α}

def Ascending (t : Table α) : Prop := t.names.Pairwise (· < ·)

theorem ascending_sorted (t : Table α) : t.sorted.Ascending :=
  List.pairwise_map.mpr (SortedTable.ofList t.entries).ascending

theorem sorted_of_ascending (ascending : t.Ascending) : t.sorted = t :=
  ext (SortedTable.entries_ofList_of_ascending (List.pairwise_map.mp ascending))

theorem names_sorted_iff : t.sorted.names = t.names ↔ t.Ascending := by
  constructor
  · intro same
    unfold Ascending
    rw [← same]
    exact t.ascending_sorted
  · intro ascending
    rw [sorted_of_ascending ascending]

end Table

namespace Json

theorem names_of_ofEntries {α : Type} {encode : α → Json} {l m : List (String × α)}
    (same : ofEntries encode l = ofEntries encode m) : l.map Prod.fst = m.map Prod.fst := by
  have names := congrArg (List.map Prod.fst) (obj.inj same)
  simpa [Function.comp_def] using names

end Json

namespace RunRecord

structure Ascending (r : RunRecord) : Prop where
  values : r.objective.values.Ascending
  distributions : r.objective.distributions.Ascending

theorem sorted_of_ascending {r : RunRecord} (ascending : r.Ascending) : r.sorted = r := by
  simp only [sorted, Objective.sorted, Table.sorted_of_ascending ascending.values,
    Table.sorted_of_ascending ascending.distributions]

/-- The encoding of a record tells the order of its values and distributions. -/
theorem encode_sorted_iff {r : RunRecord} : r.sorted.encode = r.encode ↔ r.Ascending := by
  constructor
  · intro same
    have objectives : r.objective.sorted.encode = r.objective.encode := by
      simpa [encode, sorted] using same
    simp only [Objective.encode, Json.obj.injEq, List.cons_append, List.nil_append, List.cons.injEq,
      Prod.mk.injEq, true_and] at objectives
    obtain ⟨-, values, others⟩ := objectives
    refine ⟨Table.names_sorted_iff.mp (Json.names_of_ofEntries values), ?_⟩
    by_cases empty : r.objective.distributions.entries = []
    · simp [Table.Ascending, Table.names, empty]
    · have empty' : r.objective.sorted.distributions.entries ≠ [] := by
        intro none
        have perm := r.objective.distributions.perm_sorted
        exact empty (List.Perm.nil_eq (none ▸ perm)).symm
      have distributions :
          r.objective.sorted.encodeDistributions = r.objective.encodeDistributions := by
        simpa [Table.isEmpty, empty, empty'] using others
      exact Table.names_sorted_iff.mp (Json.names_of_ofEntries distributions)
  · intro ascending
    rw [sorted_of_ascending ascending]

/-- The second record has the same parts as the first, its values and distributions in ascending order
of their names; so it has the order of the first just when that is the ascending one. -/
structure Rearranged (r s : RunRecord) : Prop where
  name : s.name = r.name
  model : s.model = r.model
  own : s.objective.model = r.objective.model
  values : s.objective.values.entries.Perm r.objective.values.entries
  distributions : s.objective.distributions.entries.Perm r.objective.distributions.entries
  metrics : s.metrics = r.metrics
  ascending : s.Ascending
  kept : s.objective.values.names = r.objective.values.names ∧
    s.objective.distributions.names = r.objective.distributions.names ↔ r.Ascending

theorem rearranged_sorted (r : RunRecord) : r.Rearranged r.sorted where
  name := rfl
  model := rfl
  own := rfl
  values := r.objective.values.perm_sorted
  distributions := r.objective.distributions.perm_sorted
  metrics := rfl
  ascending := ⟨r.objective.values.ascending_sorted, r.objective.distributions.ascending_sorted⟩
  kept := by
    have values := r.objective.values.names_sorted_iff
    have distributions := r.objective.distributions.names_sorted_iff
    exact (and_congr values distributions).trans ⟨fun h => ⟨h.1, h.2⟩, fun h => ⟨h.1, h.2⟩⟩

theorem names_of_rearranged {l l' : List RunRecord} (h : List.Forall₂ Rearranged l l') :
    l'.map RunRecord.name = l.map RunRecord.name := by
  induction h with
  | nil => rfl
  | cons first _ ih => rw [List.map_cons, List.map_cons, first.name, ih]

end RunRecord

theorem ResultSet.compact_sorted_iff {s : ResultSet} :
    s.sorted.encode.compact = s.encode.compact ↔ ∀ r ∈ s.records, r.Ascending := by
  rw [Json.compact_inj]
  simp [encode, sorted, RunRecord.encode_sorted_iff]

/-- After a successful save, loading gives each record with its values and distributions in ascending
order of their names. The text of the results is the one that was saved if and only if every record
was saved in that order. -/
theorem Store.load_after_save_order (s : Store) (c : Config) (time : String) (results : ResultSet)
    (files files' : Files.Tree) (path : String) (storable : ∀ r ∈ results.records, r.Storable)
    (back : ∀ r ∈ results.records, r.ReadsBack)
    (saved : s.save c time results files = (.ok path, files')) :
    ∃ restored, s.load c files' = .ok (.restored restored) ∧
      List.Forall₂ RunRecord.Rearranged results.records restored.records ∧
      (restored.encode.compact = results.encode.compact ↔
        ∀ r ∈ results.records, r.Ascending) := by
  have loaded : s.load c files' = .ok (.restored results.sorted) :=
    s.load_of_content c (s.read_of_save c saved) storable back
  refine ⟨results.sorted, loaded, ?_, ResultSet.compact_sorted_iff⟩
  apply List.forall₂_map_right_iff.mpr
  apply List.forall₂_same.mpr
  intro r _
  exact r.rearranged_sorted

/-- A record with the values width and depth, in this order, loses it; it stays before the records behind
it. -/
theorem Store.load_after_save_order_mixedResults :
    ∃ restored, (ofConfig namedConfig).load namedConfig
        ((ofConfig namedConfig).save namedConfig "now" mixedResults .initial).2 =
          .ok (.restored restored) ∧
      restored.names = ["r", "b", "a"] ∧
      restored.encode.compact ≠ mixedResults.encode.compact ∧
      ∃ r rest, restored.records = r :: rest ∧
        r.objective.values.names ≠ mixedRecord.objective.values.names := by
  obtain ⟨restored, loaded, each, text⟩ := load_after_save_order (ofConfig namedConfig) namedConfig
    "now" mixedResults .initial _ "checkpoints/demo.checkpoint.json" storable_mixedResults
    readsBack_mixedResults rfl
  have turned : ¬mixedRecord.objective.values.Ascending := by
    unfold Table.Ascending
    decide +kernel
  refine ⟨restored, loaded, ?_, ?_, ?_⟩
  · exact RunRecord.names_of_rearranged each
  · intro same
    exact turned (text.mp same mixedRecord List.mem_cons_self).values
  · obtain ⟨r, rest, rearranged, -, whole⟩ := List.forall₂_cons_left_iff.mp each
    refine ⟨r, rest, whole, ?_⟩
    intro same
    unfold Table.Ascending at turned
    rw [← same] at turned
    exact turned rearranged.ascending.values

end GridSweep
