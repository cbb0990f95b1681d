import GridSweep.Proofs.Checkpoint.RoundTrip
import GridSweep.Proofs.Results.Rereading

namespace GridSweep

open Json Decode

namespace Json

theorem depth_item {items : List Json} {x : Json} (h : x ∈ items) : x.depth + 1 ≤ (arr items).depth :=
  Nat.succ_le_succ (depth_le_itemsDepth h)

theorem depth_member (name : String) {members : List (String × Json)} {x : Json}
    (h : (name, x) ∈ members) : x.depth + 1 ≤ (obj members).depth :=
  Nat.succ_le_succ (depth_le_membersDepth h)

end Json

namespace Payload

variable {c : Config} {time : String} {s : ResultSet}

theorem reread_encode (c : Config) (time : String) (s : ResultSet) :
    (of c time s).encode.reread = (of c time s.reread).encode := by
  have version : (ofNat currentVersion).reread = ofNat currentVersion :=
    rereadNumber_int (i := 1) (by constructor <;> decide)
  simp only [of, encode, ifAny, List.cons_append, List.nil_append, reread, rereadMembers, version,
    s.reread_encode]

theorem fails_decoder {context : Context} (unlimited : context.limited = false) {r : RunRecord}
    (hr : r ∈ s.records) (held : r.objective.HeldValues) (infinite : ¬r.Finite) :
    Fails (decoder context (.ofJson (of c time s).encode.normal)) := by
  have fails := ResultSet.fails_decoder (c := context) unlimited hr held infinite
  rw [encode]
  exact Record.Refuses.decoder_normal "results" s.encode
    (.map (.right (.right (.right (.field fails) (by decide)) (by decide)) (by decide)) _) unlimited
    (by simp [of, ifAny]) (by simp [of, ifAny]) _

/-- A value of a record stands five levels deep in a checkpoint. -/
theorem depth_value {r : RunRecord} (hr : r ∈ s.records) {e : String × Json}
    (he : e ∈ r.objective.values.entries) : e.2.depth + 5 ≤ (of c time s).encode.depth := by
  have value : e.2.depth + 1 ≤ r.objective.encodeValues.depth :=
    depth_member e.1 (List.mem_map_of_mem he)
  have values : r.objective.encodeValues.depth + 1 ≤ r.objective.encode.depth :=
    depth_member "values" (by simp)
  have objective : r.objective.encode.depth + 1 ≤ r.encode.depth :=
    depth_member "objective" (by simp)
  have record : r.encode.depth + 1 ≤ s.encode.depth := depth_item (List.mem_map_of_mem hr)
  have results : s.encode.depth + 1 ≤ (of c time s).encode.depth :=
    depth_member "results" (by simp [of])
  omega

theorem storable_of_parsable (parsable : (of c time s).encode.Parsable) {r : RunRecord}
    (hr : r ∈ s.records) (held : r.objective.HeldValues) (finite : r.reread.Finite) :
    r.Storable := by
  obtain ⟨_, distributions, metrics⟩ := RunRecord.finite_of_reread held finite
  refine ⟨held, ?_, distributions, metrics⟩
  intro e he
  have deep : e.2.depth + 5 ≤ (of c time s).encode.depth := depth_value hr he
  have := parsable.1
  omega

end Payload

namespace Checkpoint

variable {c : Config} {time path : String} {s : ResultSet}

/-- What becomes of the text of a checkpoint when it is read. -/
inductive Reread (c : Config) (time path : String) (s : ResultSet) : Except Fault ResultSet → Prop where
  | unparsable (refused : ¬(Payload.of c time s).encode.Parsable) :
      Reread c time path s (.error (.unparsable path))
  | undecodable {r : RunRecord} (hr : r ∈ s.records) (infinite : ¬r.reread.Finite)
      (cause : Failure) : Reread c time path s (.error (.undecodable path cause))
  | kept (parsable : (Payload.of c time s).encode.Parsable)
      (finite : ∀ r ∈ s.records, r.reread.Finite) : Reread c time path s (.ok s.reread.sorted)

theorem accept_render_cases (held : ∀ r ∈ s.records, r.objective.HeldValues) :
    Reread c time path s (accept path c.fingerprint (Store.render c time s).toUTF8) := by
  by_cases parsable : (Payload.of c time s).encode.Parsable
  · have parsed : parseBytes? (Store.render c time s).toUTF8 =
        some (Payload.of c time s.reread).encode.normal := by
      rw [parseBytes?, fromUTF8?_toUTF8, ← Payload.reread_encode]
      exact parse?_pretty_of_parsable parsable
    have held' : ∀ r ∈ s.reread.records, r.objective.HeldValues := by
      intro r hr
      obtain ⟨known, hk, rfl⟩ := List.mem_map.mp hr
      exact (held known hk).reread
    -- What is parsed is the checkpoint of the results as their texts stand for them.
    by_cases finite : ∀ r ∈ s.records, r.reread.Finite
    · have finite' : ∀ r ∈ s.reread.records, r.Finite := List.forall_mem_map.mpr finite
      rw [accept_of_parsed parsed held' finite', if_pos rfl]
      exact .kept parsable finite
    · push Not at finite
      obtain ⟨r, hr, infinite⟩ := finite
      have there : r.reread ∈ s.reread.records := List.mem_map_of_mem hr
      have fails : Fails (Payload.decoder .value (.ofJson (Payload.of c time s.reread).encode.normal)) :=
        Payload.fails_decoder rfl there (held' _ there) infinite
      obtain ⟨cause, failed⟩ := fails.decodeTree 0
      have refused : decodeValue Payload.decoder (Payload.of c time s.reread).encode.normal =
          .error cause := failed
      simp only [accept, parsed, version?_normal, refused, ne_eq, not_true_eq_false, if_false]
      exact .undecodable hr infinite cause
  · have parsed : parseBytes? (Store.render c time s).toUTF8 = none := by
      rw [parseBytes?, fromUTF8?_toUTF8]
      exact parse?_pretty_of_not_parsable parsable
    simp only [accept, parsed]
    exact .unparsable parsable

end Checkpoint

namespace ResultSet

theorem readsBack_of_same {l : List RunRecord} (held : ∀ r ∈ l, r.objective.HeldValues)
    (finite : ∀ r ∈ l, r.reread.Finite)
    (same : sameRecords (l.map fun r => r.reread.sorted) l = true) : ∀ r ∈ l, r.ReadsBack := by
  have each : ∀ r ∈ l, r.reread.sorted.same r = true := by
    refine each_of_compared (fun r rest both => ?_) same
    rwa [sameRecords, Bool.and_eq_true] at both
  exact fun r hr => RunRecord.readsBack_of_same (held r hr) (finite r hr) (each r hr)

end ResultSet

namespace Store

open Files Checkpoint

variable {s : Store} {c : Config} {time : String} {results : ResultSet} {files : Tree}

/-- A checkpoint that was written is corrupt, or its records can be kept and are restored as far as
their numbers are read back. -/
theorem load_cases (held : ∀ r ∈ results.records, r.objective.HeldValues)
    (read : files.read (s.path c) = .ok (render c time results).toUTF8) :
    (∃ fault, s.load c files = .error fault ∧ fault.report.kind = .corrupt) ∨
      s.load c files = .ok (.restored results.reread.sorted) ∧
        ∀ r ∈ results.records, r.Storable ∧ r.reread.Finite := by
  rw [load_of_read read]
  have ways : Reread c time (s.path c) results
      (accept (s.path c) c.fingerprint (render c time results).toUTF8) := accept_render_cases held
  generalize accept (s.path c) c.fingerprint (render c time results).toUTF8 = accepted at ways ⊢
  cases ways with
  | unparsable refused => exact .inl ⟨_, rfl, rfl⟩
  | undecodable hr infinite cause => exact .inl ⟨_, rfl, rfl⟩
  | kept parsable finite =>
    -- The text was read, so it does not nest too deep, and neither do the values in it.
    refine .inr ⟨rfl, fun r hr => ⟨?_, finite r hr⟩⟩
    exact Payload.storable_of_parsable parsable hr (held r hr) (finite r hr)

theorem load_corrupt (held : ∀ r ∈ results.records, r.objective.HeldValues)
    (read : files.read (s.path c) = .ok (render c time results).toUTF8) {r : RunRecord}
    (hr : r ∈ results.records) (unstorable : ¬r.Storable) :
    ∃ fault, s.load c files = .error fault ∧ fault.report.kind = .corrupt := by
  rcases load_cases held read with corrupt | ⟨_, storable⟩
  · exact corrupt
  · exact absurd (storable r hr).1 unstorable

theorem load_same_iff (held : ∀ r ∈ results.records, r.objective.HeldValues)
    (read : files.read (s.path c) = .ok (render c time results).toUTF8) :
    (∃ rs, s.load c files = .ok (.restored rs) ∧ rs.same results = true) ↔
      ∀ r ∈ results.records, r.Storable ∧ r.ReadsBack := by
  constructor
  · rintro ⟨rs, loaded, same⟩
    rcases load_cases held read with ⟨fault, corrupt, _⟩ | ⟨restored, storable⟩
    · rw [corrupt] at loaded
      cases loaded
    · rw [restored] at loaded
      obtain rfl := State.restored.inj (Except.ok.inj loaded)
      have whole : results.reread.sorted.records =
          results.records.map fun r => r.reread.sorted := List.map_map
      rw [ResultSet.same, whole] at same
      intro r hr
      exact ⟨(storable r hr).1,
        ResultSet.readsBack_of_same held (fun r hr => (storable r hr).2) same r hr⟩
  · intro kept
    exact ⟨results.sorted,
      s.load_of_content c read (fun r hr => (kept r hr).1) fun r hr => (kept r hr).2,
      ResultSet.sorted_same fun r hr => (kept r hr).1⟩

end Store

end GridSweep
