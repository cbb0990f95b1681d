import GridSweep.Proofs.Decode.Exact
import GridSweep.Proofs.Json.Parsing
import GridSweep.Proofs.Results.Representation

namespace GridSweep

open Json Decode

section Readers

theorem Distribution.steady_record : Distribution.record.Steady :=
  .map (.and (Record.steady_field reads_double) (Record.steady_field reads_double)) _

theorem Objective.steady_record : Objective.record.Steady := by
  refine .map (.and (Record.steady_field reads_text) (.and ?_ ?_)) _
  · exact Record.steady_field reads_value.table
  · exact Record.steady_field (Distribution.steady_record.reads _).table

theorem RunRecord.steady_record : RunRecord.record.Steady := by
  refine .map (.and (Record.steady_field reads_text)
    (.and (Record.steady_field reads_text) (.and ?_ ?_))) _
  · exact Record.steady_field (Objective.steady_record.reads _)
  · exact Record.steady_field reads_double.sortedTable

theorem RunRecord.reads_decoder : Reads RunRecord.decoder := RunRecord.steady_record.reads _

theorem ResultSet.reads_decoder : Reads ResultSet.decoder := by
  intro c x
  refine (RunRecord.reads_decoder.list c x).bind fun l => ?_
  cases ResultSet.ofRecords l with
  | ok s => exact steady_pure s
  | error e => exact steady_throw _

theorem Payload.steady_record : Payload.record.Steady := by
  refine .map (.and (Record.steady_field (reads_natural _))
    (.and (Record.steady_field reads_text) (.and ?_ ?_))) _
  · exact Record.steady_field reads_text.option
  · exact Record.steady_field ResultSet.reads_decoder

end Readers

namespace ResultSet

theorem records_of_ofRecords {l : List RunRecord} {s : ResultSet} (collected : ofRecords l = .ok s) :
    s.records = l :=
  records_of_foldlM collected

/-- A set is read just when an array is, whose items are read as its records. -/
theorem decoder_iff {x : Json} {s : ResultSet} :
    decoder .value (.ofJson x) = pure s ↔
      ∃ items, x = .arr items ∧
        List.Forall₂ (fun x r => decodeValue RunRecord.decoder x = .ok r) items s.records := by
  have list_iff : list RunRecord.decoder .value (.ofJson x) = pure s.records ↔
      ∃ items, x = .arr items ∧
        List.Forall₂ (fun x r => decodeValue RunRecord.decoder x = .ok r) items s.records := by
    simp only [RunRecord.reads_decoder.list_iff (c := .value) rfl,
      decodeValue_eq_ok_iff RunRecord.reads_decoder]
  rw [← list_iff]
  constructor
  · intro read
    obtain ⟨l, given, collected⟩ := (RunRecord.reads_decoder.list .value x).bind_eq_pure read
    cases made : ofRecords l with
    | ok t =>
      rw [made] at collected
      obtain rfl : t = s := pure_inj collected
      rwa [records_of_ofRecords made]
    | error e =>
      rw [made] at collected
      exact absurd collected.symm pure_ne_throw
  · intro given
    simp only [decoder, given, pure_bind, ofRecords_records]

end ResultSet

namespace Json

theorem mem_numbers_of_member {j : Json} {name : String} {n : Number}
    (found : j.member? name = some (.num n)) : n ∈ j.numbers := by
  cases j with
  | obj members =>
    have there := List.mem_reverse.mp (Entries.mem_of_find? found)
    exact mem_memberNumbers.mpr ⟨_, there, List.mem_singleton_self n⟩
  | _ => cases found

theorem normal_eq_num {j : Json} {n : Number} : j.normal = .num n ↔ j = .num n := by
  cases j <;> simp [normal]

theorem normal_eq_str {j : Json} {s : String} : j.normal = .str s ↔ j = .str s := by
  cases j <;> simp [normal]

theorem normal_eq_null {j : Json} : j.normal = .null ↔ j = .null := by
  cases j <;> simp [normal]

theorem normal_eq_arr {j : Json} {items : List Json} :
    j.normal = .arr items ↔ ∃ l : List Json, j = .arr l ∧ l.map normal = items := by
  cases j <;> simp [normal, normalItems_eq_map]

end Json

namespace Payload

/-- The members of a value make up a checkpoint of these records under this fingerprint. Of members with
one name the last one counts. -/
structure Spelled (j : Json) (fingerprint : String) (l : List RunRecord) : Prop where
  version : ∃ v : Nat, v ≤ 0xffffffff ∧ j.member? "schema_version" = some (.num (.int v))
  fingerprint : j.member? "fingerprint" = some (.str fingerprint)
  savedAt : ∀ x, j.member? "saved_at" = some x → x = .null ∨ ∃ time, x = .str time
  results : ∃ items, j.member? "results" = some (.arr items) ∧
    List.Forall₂ (fun x r => decodeValue RunRecord.decoder x.normal = .ok r) items l

theorem yields_iff {c : Context} {l : List (String × Json)} (distinct : (l.map Prod.fst).Nodup)
    {p : Payload} : record.Yields c l p ↔
      (Field.needed "schema_version" (natural .u32)).Given c l p.version ∧
        (Field.needed "fingerprint" text).Given c l p.fingerprint ∧
          (Field.free "saved_at" text).Given c l p.savedAt ∧
            (Field.needed "results" ResultSet.decoder).Given c l p.results := by
  have version : Reads (Field.needed "schema_version" (natural .u32)).read := reads_natural _
  have fingerprint : Reads (Field.needed "fingerprint" text).read := reads_text
  have savedAt : Reads (Field.free "saved_at" text).read := reads_text.option
  have results : Reads (Field.needed "results" ResultSet.decoder).read := ResultSet.reads_decoder
  have last := (Record.steady_field savedAt).and (Record.steady_field results)
  have named := (Record.steady_field fingerprint).and last
  rw [record, Record.yields_map_iff]
  simp only [Record.yields_and_iff (Record.steady_field version) named (by decide),
    Record.yields_and_iff (Record.steady_field fingerprint) last (by decide),
    Record.yields_and_iff (Record.steady_field savedAt) (Record.steady_field results) (by decide),
    Record.yields_field_iff version distinct, Record.yields_field_iff fingerprint distinct,
    Record.yields_field_iff savedAt distinct, Record.yields_field_iff results distinct]
  constructor
  · rintro ⟨⟨v, fingerprint, savedAt, results⟩, given, rfl⟩
    exact given
  · intro given
    exact ⟨(p.version, p.fingerprint, p.savedAt, p.results), given, rfl⟩

section Normal

variable {members : List (String × Json)} {c : Context}

theorem given_needed_normal {α : Type} {key : String} {d : Decoder α} {a : α} :
    (Field.needed key d).Given c (sorted (normalMembers members)) a ↔
      ∃ x, (obj members).member? key = some x ∧ d c (.ofJson x.normal) = pure a := by
  simp [given_needed, find?_normalMembers_eq]

theorem given_savedAt_normal {savedAt : Option String} :
    (Field.free "saved_at" text).Given c (sorted (normalMembers members)) savedAt ↔
      ((obj members).member? "saved_at" = none ∨ (obj members).member? "saved_at" = some .null) ∧
          savedAt = none ∨
        ∃ time, (obj members).member? "saved_at" = some (.str time) ∧ savedAt = some time := by
  rw [given_free, find?_normalMembers_eq]
  cases (obj members).member? "saved_at" with
  | none => simp
  | some x =>
    simp only [Option.map_some, reduceCtorEq, false_and, Option.some.injEq, exists_eq_left', false_or,
      reads_text.option_iff, text_iff, normal_eq_null, normal_eq_str]
    constructor
    · rintro (⟨rfl, rfl⟩ | ⟨_, time, rfl, rfl⟩)
      · exact .inl ⟨rfl, rfl⟩
      · exact .inr ⟨time, rfl, rfl⟩
    · rintro (⟨rfl, rfl⟩ | ⟨time, rfl, rfl⟩)
      · exact .inl ⟨rfl, rfl⟩
      · exact .inr ⟨by simp [normal], time, rfl, rfl⟩

theorem given_results_normal {results : ResultSet} :
    (Field.needed "results" ResultSet.decoder).Given .value (sorted (normalMembers members)) results ↔
      ∃ items, (obj members).member? "results" = some (.arr items) ∧
        List.Forall₂ (fun x r => decodeValue RunRecord.decoder x.normal = .ok r) items
          results.records := by
  simp only [given_needed_normal, ResultSet.decoder_iff, normal_eq_arr]
  constructor
  · rintro ⟨_, found, _, ⟨items, rfl, rfl⟩, decoded⟩
    exact ⟨items, found, List.forall₂_map_left_iff.mp decoded⟩
  · rintro ⟨items, found, decoded⟩
    exact ⟨_, found, _, ⟨items, rfl, rfl⟩, List.forall₂_map_left_iff.mpr decoded⟩

/-- A normal form is decoded just when the members of the value make up a checkpoint whose records repeat
no name. -/
theorem decodeValue_iff {fingerprint : String} {l : List RunRecord} :
    (∃ p, decodeValue decoder (obj members).normal = .ok p ∧ p.fingerprint = fingerprint ∧
        p.results.records = l) ↔
      Spelled (obj members) fingerprint l ∧ (l.map RunRecord.name).Nodup := by
  have decoded_iff (p : Payload) : decodeValue decoder (obj members).normal = .ok p ↔
      record.Yields .value (sorted (normalMembers members)) p := by
    rw [decoder, decodeValue_eq_ok_iff (steady_record.reads _), normal_obj]
    exact steady_record.decoder_iff _ rfl
  simp only [decoded_iff, yields_iff (nodup_normalMembers members), given_savedAt_normal,
    given_results_normal]
  simp only [given_needed_normal, natural_u32_iff, text_iff, normal_eq_num, normal_eq_str]
  constructor
  · rintro ⟨p, ⟨⟨_, version, rfl, fits⟩, ⟨_, fingerprint, rfl⟩, savedAt, results⟩, rfl, rfl⟩
    refine ⟨⟨⟨p.version, fits, version⟩, fingerprint, ?_, results⟩, p.results.distinct⟩
    intro x found
    rcases savedAt with ⟨none | null, _⟩ | ⟨time, there, _⟩
    · simp [none] at found
    · exact .inl (Option.some.inj (found.symm.trans null))
    · exact .inr ⟨time, Option.some.inj (found.symm.trans there)⟩
  · rintro ⟨⟨⟨v, fits, version⟩, fingerprint, savedAt, results⟩, distinct⟩
    obtain ⟨t, _, records⟩ := ResultSet.foldlM_add l .empty distinct
    obtain rfl : t.records = l := records
    obtain ⟨time, saved⟩ : ∃ time : Option String,
        ((obj members).member? "saved_at" = none ∨ (obj members).member? "saved_at" = some .null) ∧
            time = none ∨
          ∃ t, (obj members).member? "saved_at" = some (.str t) ∧ time = some t := by
      cases found : (obj members).member? "saved_at" with
      | none => exact ⟨none, .inl ⟨.inl rfl, rfl⟩⟩
      | some x =>
        rcases savedAt x found with rfl | ⟨t, rfl⟩
        · exact ⟨none, .inl ⟨.inr rfl, rfl⟩⟩
        · exact ⟨some t, .inr ⟨t, rfl, rfl⟩⟩
    exact ⟨⟨v, _, time, t⟩, ⟨⟨_, version, rfl, fits⟩, ⟨_, fingerprint, rfl⟩, saved, results⟩, rfl, rfl⟩

end Normal

end Payload

end GridSweep
