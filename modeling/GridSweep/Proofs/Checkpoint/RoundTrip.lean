import GridSweep.Checkpoint.Store
import GridSweep.Proofs.Files.Writing
import GridSweep.Proofs.Results.Decoding
import GridSweep.Proofs.Results.Storable

namespace GridSweep

open Json Decode

namespace Payload

def of (c : Config) (time : String) (s : ResultSet) : Payload :=
  ⟨currentVersion, c.fingerprint, some time, s⟩

theorem mem_numbers {c : Config} {time : String} {s : ResultSet} {n : Number}
    (h : n ∈ (of c time s).encode.numbers) : n = .int 1 ∨ n ∈ s.encode.numbers := by
  obtain ⟨e, he, hn⟩ := mem_memberNumbers.mp h
  simp only [of, ifAny, List.cons_append, List.nil_append, List.mem_cons, List.not_mem_nil,
    or_false] at he
  rcases he with rfl | rfl | rfl | rfl
  · exact .inl (List.mem_singleton.mp hn)
  · cases hn
  · cases hn
  · exact .inr hn

theorem depth_encode_le {c : Config} {time : String} {s : ResultSet}
    (storable : ∀ r ∈ s.records, r.Storable) : (of c time s).encode.depth ≤ 127 := by
  rw [encode, depth]
  refine Nat.succ_le_succ (membersDepth_le fun e he => ?_)
  simp only [of, ifAny, List.cons_append, List.nil_append, List.mem_cons, List.not_mem_nil,
    or_false] at he
  rcases he with rfl | rfl | rfl | rfl
  · exact Nat.zero_le _
  · exact Nat.zero_le _
  · exact Nat.zero_le _
  · exact ResultSet.depth_encode_le storable

theorem parse?_pretty {c : Config} {time : String} {s : ResultSet}
    (storable : ∀ r ∈ s.records, r.Storable) (back : ∀ r ∈ s.records, r.ReadsBack) :
    parse? (of c time s).encode.pretty = some (of c time s).encode.normal := by
  have one : Number.Held (.int 1) := by
    constructor <;> decide
  have held : ∀ n ∈ (of c time s).encode.numbers, n.Held := by
    intro n hn
    rcases mem_numbers hn with rfl | hn
    · exact one
    · exact ResultSet.held_encode storable hn
  have floats : ∀ x, Number.float x ∈ (of c time s).encode.numbers → x.ReadsBack := by
    intro x hx
    rcases mem_numbers hx with same | hx
    · cases same
    · obtain ⟨r, hr, hx⟩ := ResultSet.mem_numbers_encode.mp hx
      exact back r hr x hx
  exact Json.parse?_pretty held (readsBack_of_held held floats) (depth_encode_le storable)

end Payload

namespace Checkpoint

theorem version?_normal (c : Config) (time : String) (s : ResultSet) :
    version? (Payload.of c time s).encode.normal = some Payload.currentVersion := by
  have member : (Payload.of c time s).encode.normal.member? "schema_version" =
      some (.num (.int 1)) := by
    rw [member?_normal]
    rfl
  rw [version?, member]
  rfl

theorem accept_of_parsed {c : Config} {time path fingerprint : String} {s : ResultSet}
    {bytes : ByteArray} (parsed : parseBytes? bytes = some (Payload.of c time s).encode.normal)
    (held : ∀ r ∈ s.records, r.objective.HeldValues) (finite : ∀ r ∈ s.records, r.Finite) :
    accept path fingerprint bytes =
      if c.fingerprint = fingerprint then .ok s.sorted
      else .error (.foreign path c.fingerprint fingerprint) := by
  have decoded : decodeValue Payload.decoder (Payload.of c time s).encode.normal =
      .ok { Payload.of c time s with results := s.sorted } := by
    have version : (Payload.of c time s).version ≤ 0xffffffff := by
      show 1 ≤ 0xffffffff
      decide
    exact decodeTree_of_pure (Payload.decoder_normal rfl version rfl held finite) 0
  simp only [accept, parsed, version?_normal, decoded, ne_eq, not_true_eq_false, if_false]
  rw [Payload.of]
  by_cases same : c.fingerprint = fingerprint
  · rw [if_neg (not_not.mpr same), if_pos same]
  · rw [if_pos same, if_neg same]

theorem accept_render_of {c : Config} {time path fingerprint : String} {s : ResultSet}
    (storable : ∀ r ∈ s.records, r.Storable) (back : ∀ r ∈ s.records, r.ReadsBack) :
    accept path fingerprint (Store.render c time s).toUTF8 =
      if c.fingerprint = fingerprint then .ok s.sorted
      else .error (.foreign path c.fingerprint fingerprint) := by
  have parsed : parseBytes? (Store.render c time s).toUTF8 =
      some (Payload.of c time s).encode.normal := by
    rw [parseBytes?, fromUTF8?_toUTF8]
    exact Payload.parse?_pretty storable back
  exact accept_of_parsed parsed (fun r hr => (storable r hr).held) fun r hr => (storable r hr).finite

theorem accept_render {c : Config} {time path : String} {s : ResultSet}
    (storable : ∀ r ∈ s.records, r.Storable) (back : ∀ r ∈ s.records, r.ReadsBack) :
    accept path c.fingerprint (Store.render c time s).toUTF8 = .ok s.sorted := by
  rw [accept_render_of storable back, if_pos rfl]

end Checkpoint

namespace Store

open Files

variable (s : Store) (c : Config)

theorem save_eq_ok {time : String} {results : ResultSet} {files files' : Tree} {path : String}
    (saved : s.save c time results files = (.ok path, files')) :
    ∃ made l, files.makeDirectories s.directory = (.ok (), made) ∧ made.FileAt (s.path c) l ∧
      files' = made.place l (.file (render c time results).toUTF8) := by
  unfold save at saved
  split at saved
  · cases (Prod.mk.inj saved).1
  · rename_i made directories
    split at saved
    · rename_i written
      obtain ⟨l, place, rfl⟩ := Tree.write_eq_ok written
      exact ⟨made, l, directories, place, (Prod.mk.inj saved).2.symm⟩
    · cases (Prod.mk.inj saved).1

theorem read_of_save {time : String} {results : ResultSet} {files files' : Tree} {path : String}
    (saved : s.save c time results files = (.ok path, files')) :
    files'.read (s.path c) = .ok (render c time results).toUTF8 := by
  obtain ⟨made, l, _, place, rfl⟩ := s.save_eq_ok c saved
  exact place.read_place _

theorem load_of_read {s : Store} {c : Config} {files : Tree} {bytes : ByteArray}
    (read : files.read (s.path c) = .ok bytes) :
    s.load c files = (Checkpoint.accept (s.path c) c.fingerprint bytes).map .restored := by
  unfold load
  rw [read]

theorem load_of_content {time : String} {results : ResultSet} {files : Tree}
    (read : files.read (s.path c) = .ok (render c time results).toUTF8)
    (storable : ∀ r ∈ results.records, r.Storable) (back : ∀ r ∈ results.records, r.ReadsBack) :
    s.load c files = .ok (.restored results.sorted) := by
  have accepted : Checkpoint.accept (s.path c) c.fingerprint (render c time results).toUTF8 =
      .ok results.sorted := Checkpoint.accept_render storable back
  rw [load_of_read read, accepted]
  rfl

theorem load_place {made : Tree} {l : Location} {time : String} {results : ResultSet}
    (place : made.FileAt (s.path c) l) (storable : ∀ r ∈ results.records, r.Storable)
    (back : ∀ r ∈ results.records, r.ReadsBack) :
    s.load c (made.place l (.file (render c time results).toUTF8)) =
      .ok (.restored results.sorted) :=
  s.load_of_content c (place.read_place _) storable back

/-- The checkpoint can be written: its directory is there or can be made, and no directory stands in
its place. -/
def Writable (files : Tree) : Prop :=
  ∃ made l, files.makeDirectories s.directory = (.ok (), made) ∧ made.FileAt (s.path c) l

theorem writable_of_save {time path : String} {results : ResultSet} {files files' : Tree}
    (saved : s.save c time results files = (.ok path, files')) : s.Writable c files := by
  obtain ⟨made, l, directories, place, _⟩ := s.save_eq_ok c saved
  exact ⟨made, l, directories, place⟩

/-- A checkpoint that can be written is written, can be written again, and gives the sorted form of
what was saved. -/
theorem Writable.save {s : Store} {c : Config} {files : Tree} (writable : s.Writable c files)
    {time : String} {results : ResultSet} (storable : ∀ r ∈ results.records, r.Storable)
    (back : ∀ r ∈ results.records, r.ReadsBack) :
    ∃ files', s.save c time results files = (.ok (s.path c), files') ∧ s.Writable c files' ∧
      s.load c files' = .ok (.restored results.sorted) := by
  obtain ⟨made, l, directories, place⟩ := writable
  have keeps := Tree.keeps_place_file place.vacant (render c time results).toUTF8
  have there := (Tree.makeDirectories_eq_ok directories).2.of_keeps keeps
  refine ⟨_, ?_, ⟨_, l, Tree.makeDirectories_of_made there, place.place _⟩,
    s.load_place c place storable back⟩
  simp only [Store.save, directories, place.write]

/-- After a successful save, loading gives results that equal the saved ones and answer every query
alike. -/
theorem load_after_save (time : String) (results : ResultSet) (files files' : Tree) (path : String)
    (storable : ∀ r ∈ results.records, r.Storable) (back : ∀ r ∈ results.records, r.ReadsBack)
    (saved : s.save c time results files = (.ok path, files')) :
    ∃ restored, s.load c files' = .ok (.restored restored) ∧ restored.AnswersLike results := by
  obtain ⟨made, l, _, place, rfl⟩ := s.save_eq_ok c saved
  refine ⟨results.sorted, s.load_place c place storable back,
    ResultSet.answersLike_of_sorted results.sorted_sorted fun r hr => ?_⟩
  obtain ⟨known, hk, rfl⟩ := List.mem_map.mp hr
  exact ((storable known hk).of_sorted known.sorted_sorted).finite

def namedConfig : Config := ⟨some "demo", .standard, [], .empty⟩

/-- A record of another model than its objective's, with a control character among its values. -/
def mixedRecord : RunRecord :=
  ⟨"r", "n",
    ⟨"m", .ofList [("width", .obj [("a", .arr [.num (.int (-3)), .str "\n"]), ("b", .null)]),
        ("depth", .num (.float .one))],
      .ofList [("load", ⟨.one, .zero⟩)]⟩,
    .ofList [("time", .one)]⟩

def plainRecord (name : String) : RunRecord :=
  ⟨name, "m", ⟨"m", .empty, .empty⟩, SortedTable.empty.insert "time" .one⟩

/-- Three records against the order of their names, the last two of one grid point. -/
def mixedResults : ResultSet :=
  ⟨[mixedRecord, plainRecord "b", plainRecord "a"], .ofList [("r", 0), ("b", 1), ("a", 2)], rfl,
    [mixedRecord.point, (plainRecord "b").point], rfl⟩

theorem storable_mixedRecord : mixedRecord.Storable := by
  refine ⟨?_, ?_, by decide +kernel, by decide +kernel⟩
  · intro e he
    change e ∈ [_, _] at he
    simp only [List.mem_cons, List.not_mem_nil, or_false] at he
    rcases he with rfl | rfl
    · refine ⟨rfl, fun n hn => ?_⟩
      obtain rfl := List.mem_singleton.mp hn
      constructor <;> decide
    · refine ⟨rfl, fun n hn => ?_⟩
      obtain rfl := List.mem_singleton.mp hn
      exact Double.readsBack_one.isFinite
  · intro e he
    change e ∈ [_, _] at he
    simp only [List.mem_cons, List.not_mem_nil, or_false] at he
    rcases he with rfl | rfl
    · decide
    · decide

theorem storable_plainRecord (name : String) : (plainRecord name).Storable := by
  refine ⟨nofun, nofun, nofun, fun e he => ?_⟩
  simp only [SortedTable.mem_insert_empty.mp he, Double.readsBack_one.isFinite]

theorem storable_mixedResults : ∀ r ∈ mixedResults.records, r.Storable := by
  simp only [mixedResults, List.forall_mem_cons]
  exact ⟨storable_mixedRecord, storable_plainRecord "b", storable_plainRecord "a", nofun⟩

theorem readsBack_mixedResults : ∀ r ∈ mixedResults.records, r.ReadsBack := by
  have denoted : ∀ r ∈ mixedResults.records, ∀ n ∈ r.encode.numbers, n.numeral.number? = some n := by
    decide +kernel
  intro r hr x hx
  exact Double.readsBack_of_numeral (RunRecord.held_encode (storable_mixedResults r hr) hx)
    (denoted r hr _ hx)

theorem load_after_save_mixedResults :
    mixedResults.names = ["r", "b", "a"] ∧
    ∃ restored,
      (ofConfig namedConfig).load namedConfig
        ((ofConfig namedConfig).save namedConfig "now" mixedResults .initial).2 =
          .ok (.restored restored) ∧ restored.AnswersLike mixedResults ∧
      restored.names = ["r", "b", "a"] := by
  obtain ⟨restored, loaded, alike⟩ := load_after_save (ofConfig namedConfig) namedConfig "now"
    mixedResults .initial _ "checkpoints/demo.checkpoint.json" storable_mixedResults
    readsBack_mixedResults rfl
  exact ⟨rfl, restored, loaded, alike, alike.names⟩

end Store

end GridSweep
