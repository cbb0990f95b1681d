import GridSweep.Proofs.Checkpoint.Rereading
import GridSweep.Proofs.Number.Reading

/-!
What a checkpoint does to floating-point numbers. Records that can be kept are always restored, and
every number of theirs as a finite number of the same sign, but not always as itself: it drifts when
the reading of its text rounds elsewhere, and a point with such a number among its values is then
another point (`Store.load_after_save_drift`).
-/
namespace GridSweep

open Json

namespace Double

variable {x : Double}

theorem readAs_reread (finite : x.isFinite = true) : x.ReadAs x.reread := by
  obtain ⟨y, read, readAs⟩ := floating_numeral finite
  rwa [reread, if_pos finite, read, Option.getD_some]

theorem reread_eq_iff (finite : x.isFinite = true) : x.reread = x ↔ x.Survives :=
  (readAs_reread finite).eq_iff

theorem isFinite_reread (finite : x.isFinite = true) : x.reread.isFinite = true :=
  (readAs_reread finite).finite

end Double

namespace Json

theorem reread_num_float {x : Double} (finite : x.isFinite = true) :
    (num (.float x)).reread = num (.float x.reread) := by
  have whole := reread_ofDouble x
  rwa [ofDouble, if_pos finite, ofDouble, if_pos (Double.isFinite_reread finite)] at whole

theorem denotes_of_held {j : Json} (held : ∀ n ∈ j.numbers, n.Held) : j.Denotes := by
  intro n hn
  cases n with
  | int i =>
    rw [Number.number?_numeral_int (held _ hn)]
    rfl
  | float x =>
    obtain ⟨y, read, _⟩ := Double.floating_numeral (held _ hn)
    rw [Double.number?_numeral, read]
    rfl

theorem map_eq_self_iff {α : Type} {f : α → α} {l : List α} : l.map f = l ↔ ∀ x ∈ l, f x = x := by
  have same := List.map_inj_left (l := l) (f := f) (g := id)
  rwa [List.map_id] at same

/-- A value is what its text stands for just when every floating-point number in it survives. -/
theorem reread_eq_iff {j : Json} (held : ∀ n ∈ j.numbers, n.Held) :
    j.reread = j ↔ ∀ x, Number.float x ∈ j.numbers → x.Survives := by
  induction j using tree_induction with
  | null | bool b | str s => simp [reread, numbers]
  | num n =>
    have own := held n List.mem_cons_self
    cases n with
    | int i => simp [reread, rereadNumber_int own, numbers]
    | float x =>
      rw [reread_num_float own]
      simp [numbers, Double.reread_eq_iff own]
  | arr items ih =>
    have each : ∀ y ∈ items, (y.reread = y ↔ ∀ x, Number.float x ∈ y.numbers → x.Survives) :=
      fun y hy => ih y hy fun n hn => held n (mem_itemNumbers.mpr ⟨y, hy, hn⟩)
    rw [reread, arr.injEq, rereadItems_eq_map, map_eq_self_iff]
    constructor
    · intro same x hx
      obtain ⟨y, hy, hx⟩ := mem_itemNumbers.mp hx
      exact (each y hy).mp (same y hy) x hx
    · intro survive y hy
      exact (each y hy).mpr fun x hx => survive x (mem_itemNumbers.mpr ⟨y, hy, hx⟩)
  | obj members ih =>
    have each : ∀ e ∈ members, (e.2.reread = e.2 ↔
        ∀ x, Number.float x ∈ e.2.numbers → x.Survives) :=
      fun e he => ih e he fun n hn => held n (mem_memberNumbers.mpr ⟨e, he, hn⟩)
    rw [reread, obj.injEq, rereadMembers_eq_mapValues, Entries.mapValues, map_eq_self_iff]
    constructor
    · intro same x hx
      obtain ⟨e, he, hx⟩ := mem_memberNumbers.mp hx
      exact (each e he).mp (congrArg Prod.snd (same e he)) x hx
    · intro survive e he
      have value := (each e he).mpr fun x hx => survive x (mem_memberNumbers.mpr ⟨e, he, hx⟩)
      exact Prod.ext rfl value

end Json

namespace Objective

theorem value?_reread (o : Objective) (name : String) :
    o.reread.value? name = (o.value? name).map Json.reread :=
  Entries.find?_mapValues Json.reread name o.values.entries

/-- A point keeps its key just when every floating-point number among its values survives. -/
theorem gridKey_reread_iff {o : Objective} (held : o.HeldValues) :
    o.reread.gridKey = o.gridKey ↔
      ∀ e ∈ o.values.entries, ∀ x, Number.float x ∈ e.2.numbers → x.Survives := by
  rw [gridKey_eq_iff held.reread held]
  constructor
  · rintro ⟨_, same⟩ e he
    have found : o.value? e.1 = some e.2 := Entries.find?_of_mem o.values.distinct he
    have value := same e.1
    rw [value?_reread, found, Option.map_some, Option.some_inj] at value
    exact (reread_eq_iff (held e he).numbers).mp value
  · intro survive
    refine ⟨rfl, fun name => ?_⟩
    rw [value?_reread]
    cases found : o.value? name with
    | none => rfl
    | some x =>
      have there := Entries.mem_of_find? found
      rw [Option.map_some, (reread_eq_iff (held _ there).numbers).mpr (survive _ there)]

end Objective

namespace RunRecord

theorem Storable.finite_reread {r : RunRecord} (storable : r.Storable) : r.reread.Finite where
  values := by
    intro e he
    obtain ⟨known, hk, rfl⟩ := List.mem_map.mp he
    exact held_reread (storable.held known hk).numbers
  distributions := by
    intro e he
    obtain ⟨known, hk, rfl⟩ := List.mem_map.mp he
    exact (storable.distributions known hk).imp Double.isFinite_reread Double.isFinite_reread
  metrics := by
    intro e he
    obtain ⟨known, hk, rfl⟩ := List.mem_map.mp he
    exact Double.isFinite_reread (storable.metrics known hk)

/-- What has become of a record. Each metric and each floating-point value of its point is what the
number has been read as, the number itself just when it survives; the point has kept its key just
when all floating-point numbers in its values survive. -/
structure RestoredAs (r r' : RunRecord) : Prop where
  name : r'.name = r.name
  metrics : ∀ name x, r.metrics.find? name = some x →
    ∃ y, r'.metrics.find? name = some y ∧ x.ReadAs y ∧ (y = x ↔ x.Survives)
  values : ∀ name x, r.objective.value? name = some (.num (.float x)) →
    ∃ y, r'.objective.value? name = some (.num (.float y)) ∧ x.ReadAs y ∧ (y = x ↔ x.Survives)
  point : r'.objective.gridKey = r.objective.gridKey ↔
    ∀ e ∈ r.objective.values.entries, ∀ x, Number.float x ∈ e.2.numbers → x.Survives

theorem restoredAs_reread {r : RunRecord} (storable : r.Storable) :
    r.RestoredAs r.reread.sorted where
  name := rfl
  metrics := by
    intro name x found
    have finite := storable.metrics _ (Entries.mem_of_find? found)
    have image : r.reread.metrics.find? name = some x.reread := by
      rw [reread, SortedTable.map, SortedTable.find?, Entries.find?_mapValues]
      exact congrArg (Option.map Double.reread) found
    exact ⟨x.reread, image, Double.readAs_reread finite, Double.reread_eq_iff finite⟩
  values := by
    intro name x found
    have finite : x.isFinite = true :=
      (storable.held _ (Entries.mem_of_find? found)).numbers _ List.mem_cons_self
    have image : r.reread.sorted.objective.value? name = some (.num (.float x.reread)) := by
      have placed : r.reread.sorted.objective.value? name = r.objective.reread.value? name :=
        r.objective.reread.values.find?_sorted name
      rw [placed, Objective.value?_reread, found, Option.map_some, reread_num_float finite]
    exact ⟨x.reread, image, Double.readAs_reread finite, Double.reread_eq_iff finite⟩
  point := by
    have key : r.reread.sorted.objective.gridKey = r.objective.reread.gridKey :=
      r.objective.reread.gridKey_sorted
    rw [key]
    exact Objective.gridKey_reread_iff storable.held

end RunRecord

namespace Store

open Files Checkpoint

/-- Results that can be kept are restored, as what their texts stand for. -/
theorem load_of_storable {s : Store} {c : Config} {time : String} {results : ResultSet}
    {files : Tree} (storable : ∀ r ∈ results.records, r.Storable)
    (read : files.read (s.path c) = .ok (render c time results).toUTF8) :
    s.load c files = .ok (.restored results.reread.sorted) := by
  have denotes : (Payload.of c time results).encode.Denotes := by
    apply denotes_of_held
    intro n hn
    rcases Payload.mem_numbers hn with rfl | hn
    · constructor <;> decide
    · exact ResultSet.held_encode storable hn
  have finite : ∀ r ∈ results.records, r.reread.Finite := fun r hr => (storable r hr).finite_reread
  rw [load_of_read read]
  have ways : Reread c time (s.path c) results
      (accept (s.path c) c.fingerprint (render c time results).toUTF8) :=
    accept_render_cases fun r hr => (storable r hr).held
  generalize accept (s.path c) c.fingerprint (render c time results).toUTF8 = accepted at ways ⊢
  cases ways with
  | unparsable refused => exact absurd ⟨Payload.depth_encode_le storable, denotes⟩ refused
  | undecodable hr infinite cause => exact absurd (finite _ hr) infinite
  | kept _ _ => rfl

/-- After a successful save, loading restores every record as what its numbers are read as. Numbers of
few digits are read as themselves. -/
theorem load_after_save_drift (s : Store) (c : Config) (time : String) (results : ResultSet)
    (files files' : Tree) (path : String) (storable : ∀ r ∈ results.records, r.Storable)
    (saved : s.save c time results files = (.ok path, files')) :
    (∃ restored, s.load c files' = .ok (.restored restored) ∧
      List.Forall₂ RunRecord.RestoredAs results.records restored.records) ∧
    ∀ x : Double, x.Short → x.Survives := by
  refine ⟨⟨results.reread.sorted, load_of_storable storable (s.read_of_save c saved), ?_⟩,
    fun x short => short.survives⟩
  have records : results.reread.sorted.records =
      results.records.map fun r => r.reread.sorted := List.map_map
  rw [records, List.forall₂_map_right_iff, List.forall₂_same]
  exact fun r hr => RunRecord.restoredAs_reread (storable r hr)

/-- A number whose text has seventeen digits with the one behind the point. -/
@[irreducible] def oddNumber : Double := .ofNat 9007199254740991

@[irreducible] def evenNumber : Double := .ofNat 9007199254740990

theorem readAs_evenNumber : oddNumber.ReadAs evenNumber := by
  have finite : oddNumber.isFinite = true := by decide +kernel
  have floating : (Layout.numeral oddNumber).floating = some evenNumber := by decide +kernel
  obtain ⟨y, read, readAs⟩ := Double.floating_numeral finite
  rw [floating] at read
  rwa [Option.some.inj read]

def oddRecord : RunRecord :=
  ⟨"m_run_0", "m", ⟨"m", .ofList [("a", .num (.float oddNumber))], .empty⟩,
    .ofList [("throughput", oddNumber)]⟩

def oddResults : ResultSet :=
  ⟨[oddRecord], .ofList [(oddRecord.name, 0)], rfl, [oddRecord.point], rfl⟩

theorem storable_oddResults : ∀ r ∈ oddResults.records, r.Storable := by
  intro r hr
  obtain rfl := List.mem_singleton.mp hr
  refine ⟨?_, by decide, by decide, by decide +kernel⟩
  intro e he
  change e ∈ [_] at he
  obtain rfl := List.mem_singleton.mp he
  have finite : oddNumber.isFinite = true := by decide +kernel
  exact held_num finite

theorem load_after_save_drift_odd :
    ∃ restored r, (ofConfig namedConfig).load namedConfig
        ((ofConfig namedConfig).save namedConfig "now" oddResults .initial).2 =
          .ok (.restored restored) ∧ restored.records = [r] ∧
      r.metrics.find? "throughput" = some evenNumber ∧
      r.objective.gridKey ≠ oddRecord.objective.gridKey := by
  obtain ⟨⟨restored, loaded, records⟩, _⟩ := load_after_save_drift (ofConfig namedConfig)
    namedConfig "now" oddResults .initial _ "checkpoints/demo.checkpoint.json" storable_oddResults rfl
  obtain ⟨r, rest, restoredAs, none, whole⟩ := List.forall₂_cons_left_iff.mp records
  obtain ⟨y, found, readAs, _⟩ := restoredAs.metrics "throughput" oddNumber (by decide +kernel)
  rw [readAs.unique readAs_evenNumber] at found
  have drifts : ¬oddNumber.Survives := by
    intro survives
    exact absurd (readAs_evenNumber.eq_iff.mpr survives) (by decide +kernel)
  refine ⟨restored, r, loaded, ?_, found, fun kept => drifts ?_⟩
  · rw [whole, List.forall₂_nil_left_iff.mp none]
  · exact restoredAs.point.mp kept ("a", .num (.float oddNumber)) List.mem_cons_self oddNumber
      List.mem_cons_self

end Store

end GridSweep
