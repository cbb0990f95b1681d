import GridSweep.Proofs.Checkpoint.Content
import GridSweep.Proofs.Checkpoint.History

/-!
What loading makes of a file, whatever bytes stand in it. The bytes name a version if they are the text of
an object whose last member of that name is a whole number of 64 bits (`Checkpoint.Versioned`); they hold a
checkpoint if the version is the known one and the members make up records of distinct names under a
fingerprint (`Checkpoint.Holds`). Loading restores just the records of a checkpoint that is held under the
fingerprint of the configuration, and reports everything else for the first check that it does not pass
(`Store.load_of_bytes`).
-/
namespace GridSweep

open Json Decode

namespace Checkpoint

variable {bytes : ByteArray} {j : Json} {found : String} {v : Nat} {l : List RunRecord}

/-- The bytes are the text of a value that names a version, a whole number of 64 bits. -/
structure Versioned (bytes : ByteArray) (j : Json) (v : Nat) : Prop where
  stands : Stands bytes j
  small : v < 2 ^ 64
  version : j.member? "schema_version" = some (.num (.int v))

/-- The bytes hold a checkpoint of these records under this fingerprint. -/
def Holds (bytes : ByteArray) (fingerprint : String) (l : List RunRecord) : Prop :=
  ∃ j, Versioned bytes j 1 ∧ Payload.Spelled j fingerprint l ∧ (l.map RunRecord.name).Nodup

theorem version?_normal_iff : version? j.normal = some v ↔
    j.member? "schema_version" = some (.num (.int v)) := by
  have named : (j.member? "schema_version").map normal = some (.num (.int v)) ↔
      j.member? "schema_version" = some (.num (.int v)) := by
    simp [normal_eq_num]
  rw [← named, version?, member?_normal]
  split
  · rename_i i given
    rw [given]
    split
    · simp only [Option.some.injEq, Json.num.injEq, Number.int.injEq]
      omega
    · simp only [Option.some.injEq, Json.num.injEq, Number.int.injEq, reduceCtorEq, false_iff]
      omega
  · rename_i other
    simp only [reduceCtorEq, false_iff]
    exact fun given => other _ given

theorem Versioned.parsed (versioned : Versioned bytes j v) :
    parseBytes? bytes = some j.normal ∧ version? j.normal = some v :=
  ⟨parseBytes?_eq_some_iff.mpr ⟨j, versioned.stands, rfl⟩, version?_normal_iff.mpr versioned.version⟩

/-- Bytes that name a version name one of 64 bits, since no other whole numbers can be held. -/
theorem versioned_of_parsed {raw : Json} (parsed : parseBytes? bytes = some raw)
    (version : version? raw = some v) : ∃ j, raw = j.normal ∧ Versioned bytes j v := by
  obtain ⟨j, stands, rfl⟩ := parseBytes?_eq_some_iff.mp parsed
  rw [version?_normal_iff] at version
  have held : Number.Fits v := stands.held _ (mem_numbers_of_member version)
  refine ⟨j, rfl, stands, ?_, version⟩
  have := held.2
  omega

/-- A checkpoint is held just when the normal form of the value that names the version is decoded. -/
theorem Versioned.holds_iff (versioned : Versioned bytes j 1) :
    Holds bytes found l ↔ ∃ p, decodeValue Payload.decoder j.normal = .ok p ∧ p.fingerprint = found ∧
      p.results.records = l := by
  have object {k : Json} (version : Versioned bytes k 1) : ∃ members, k = .obj members := by
    cases k with
    | obj members => exact ⟨members, rfl⟩
    | _ => cases version.version
  constructor
  · rintro ⟨k, other, spelled⟩
    have same : j.normal = k.normal := Option.some.inj (versioned.parsed.1.symm.trans other.parsed.1)
    obtain ⟨members, rfl⟩ := object other
    rw [same]
    exact Payload.decodeValue_iff.mpr spelled
  · intro decoded
    obtain ⟨members, rfl⟩ := object versioned
    exact ⟨_, versioned, Payload.decodeValue_iff.mp decoded⟩

section Accept

variable (path fingerprint : String)

theorem accept_of_not_versioned (unversioned : ∀ j v, ¬ Versioned bytes j v) :
    ∃ fault, accept path fingerprint bytes = .error fault ∧ fault.report.kind = .corrupt := by
  cases parsed : parseBytes? bytes with
  | none => exact ⟨.unparsable path, by simp [accept, parsed], rfl⟩
  | some raw =>
    cases version : version? raw with
    | none => exact ⟨.versionMissing path, by simp [accept, parsed, version], rfl⟩
    | some v =>
      obtain ⟨j, _, versioned⟩ := versioned_of_parsed parsed version
      exact absurd versioned (unversioned j v)

theorem Versioned.accept_other (versioned : Versioned bytes j v) (other : v ≠ 1) :
    accept path fingerprint bytes = .error (.versionUnknown path v) := by
  obtain ⟨parsed, version⟩ := versioned.parsed
  simp [accept, parsed, version, Payload.currentVersion, other]

theorem Versioned.accept_of_not_holds (versioned : Versioned bytes j 1)
    (none : ∀ found l, ¬ Holds bytes found l) :
    ∃ cause, accept path fingerprint bytes = .error (.undecodable path cause) := by
  obtain ⟨parsed, version⟩ := versioned.parsed
  cases decoded : decodeValue Payload.decoder j.normal with
  | error cause =>
    exact ⟨cause, by simp [accept, parsed, version, decoded, Payload.currentVersion]⟩
  | ok p => exact absurd (versioned.holds_iff.mpr ⟨p, decoded, rfl, rfl⟩) (none _ _)

theorem Holds.accept (holds : Holds bytes found l) :
    ∃ rs : ResultSet, rs.records = l ∧ accept path fingerprint bytes =
      if found = fingerprint then .ok rs else .error (.foreign path found fingerprint) := by
  obtain ⟨j, versioned, spelled⟩ := holds
  obtain ⟨parsed, version⟩ := versioned.parsed
  obtain ⟨p, decoded, rfl, rfl⟩ := versioned.holds_iff.mp ⟨j, versioned, spelled⟩
  refine ⟨p.results, rfl, ?_⟩
  simp only [Checkpoint.accept, parsed, version, decoded, Payload.currentVersion, ne_eq,
    not_true_eq_false, if_false, ite_not]

/-- What is accepted is held: the checks leave no other way. -/
theorem holds_of_accept {path fingerprint : String} {rs : ResultSet} (accepted : accept path fingerprint bytes = .ok rs) :
    Holds bytes fingerprint rs.records := by
  by_cases known : ∃ j, Versioned bytes j 1
  · obtain ⟨j, versioned⟩ := known
    by_cases held : ∃ found l, Holds bytes found l
    · obtain ⟨found, l, holds⟩ := held
      obtain ⟨t, rfl, given⟩ := holds.accept path fingerprint
      rw [given] at accepted
      split at accepted
      · rename_i same
        cases accepted
        exact same ▸ holds
      · cases accepted
    · push Not at held
      obtain ⟨cause, refused⟩ := versioned.accept_of_not_holds path fingerprint held
      rw [refused] at accepted
      cases accepted
  · by_cases named : ∃ j v, Versioned bytes j v
    · obtain ⟨j, v, versioned⟩ := named
      have other : v ≠ 1 := fun one => known ⟨j, one ▸ versioned⟩
      rw [versioned.accept_other path fingerprint other] at accepted
      cases accepted
    · push Not at named
      obtain ⟨fault, refused, _⟩ := accept_of_not_versioned path fingerprint named
      rw [refused] at accepted
      cases accepted

end Accept

end Checkpoint

namespace Store

open Files Checkpoint

def FailsAs (s : Store) (c : Config) (files : Tree) (kind : CheckpointKind) : Prop :=
  ∃ fault, s.load c files = .error fault ∧ fault.report.kind = kind

/-- What loading makes of the bytes at the path of a configuration. It restores the records of a checkpoint
that is held under the fingerprint of the configuration, and those only. Else it reports, in this order,
that no version is named, that another version is named, that the checkpoint cannot be decoded, or that it
is one of another configuration. The files stay as they are, for a load has none to give back. -/
theorem load_of_bytes (s : Store) (c : Config) (files : Tree) (bytes : ByteArray)
    (read : files.read (s.path c) = .ok bytes) :
    (∀ l, (∃ rs, s.load c files = .ok (.restored rs) ∧ rs.records = l) ↔
        Holds bytes c.fingerprint l) ∧
      ((∀ j v, ¬ Versioned bytes j v) → s.FailsAs c files .corrupt) ∧
      (∀ j v, Versioned bytes j v → v ≠ 1 → s.FailsAs c files .schemaMismatch) ∧
      (∀ j, Versioned bytes j 1 → (∀ found l, ¬ Holds bytes found l) → s.FailsAs c files .corrupt) ∧
      (∀ found l, Holds bytes found l → found ≠ c.fingerprint → s.FailsAs c files .configMismatch) ∧
      ∀ reply later, s.Happens files (.loaded c reply) later → later = files := by
  have loaded : s.load c files = (accept (s.path c) c.fingerprint bytes).map .restored :=
    load_of_read read
  have fails {fault : Checkpoint.Fault} (refused : accept (s.path c) c.fingerprint bytes = .error fault) :
      s.FailsAs c files fault.report.kind := ⟨fault, by rw [loaded, refused]; rfl, rfl⟩
  refine ⟨fun l => ⟨?_, ?_⟩, ?_, ?_, ?_, ?_, ?_⟩
  · rintro ⟨rs, restored, rfl⟩
    rw [loaded] at restored
    cases accepted : accept (s.path c) c.fingerprint bytes with
    | error fault => simp [accepted, Except.map] at restored
    | ok t =>
      rw [accepted] at restored
      obtain rfl := State.restored.inj (Except.ok.inj restored)
      exact holds_of_accept accepted
  · intro holds
    obtain ⟨rs, records, accepted⟩ := holds.accept (s.path c) c.fingerprint
    exact ⟨rs, by rw [loaded, accepted, if_pos rfl]; rfl, records⟩
  · intro unversioned
    obtain ⟨fault, refused, corrupt⟩ := accept_of_not_versioned (s.path c) c.fingerprint
      unversioned
    exact corrupt ▸ fails refused
  · intro j v versioned other
    exact fails (versioned.accept_other _ _ other)
  · intro j versioned none
    obtain ⟨cause, refused⟩ := versioned.accept_of_not_holds (s.path c) c.fingerprint none
    exact fails refused
  · intro found l holds foreign
    obtain ⟨rs, _, refused⟩ := holds.accept (s.path c) c.fingerprint
    rw [if_neg foreign] at refused
    exact fails refused
  · intro reply later happens
    cases happens with
    | load _ => rfl
    | refusedLoad _ cause => rfl

/-- A checkpoint of a later version, which is not looked into any further. -/
def laterContent : ByteArray := "\x7b\"schema_version\":2,\"results\":0\x7d".toUTF8

def laterFiles : Tree :=
  ⟨[(["home"], .directory), (["home", "checkpoints"], .directory),
    (["home", "checkpoints", "demo.checkpoint.json"], .file laterContent)], ["home"]⟩

def keptFiles : Tree := ((ofConfig namedConfig).save namedConfig "now" mixedResults .initial).2

theorem load_of_bytes_later_kept :
    (laterFiles.read ((ofConfig namedConfig).path namedConfig) = .ok laterContent ∧
        (ofConfig namedConfig).FailsAs namedConfig laterFiles .schemaMismatch) ∧
      keptFiles.read ((ofConfig namedConfig).path namedConfig) =
          .ok (render namedConfig "now" mixedResults).toUTF8 ∧
        Holds (render namedConfig "now" mixedResults).toUTF8 namedConfig.fingerprint
          mixedResults.sorted.records := by
  constructor
  · have read : laterFiles.read ((ofConfig namedConfig).path namedConfig) = .ok laterContent := rfl
    obtain ⟨_, _, mismatch, _⟩ := load_of_bytes (ofConfig namedConfig) namedConfig laterFiles
      laterContent read
    have parsed : parseBytes? laterContent =
        some (.obj [("results", .num (.int 0)), ("schema_version", .num (.int 2))]) := rfl
    obtain ⟨j, _, versioned⟩ := versioned_of_parsed (v := 2) parsed rfl
    exact ⟨read, mismatch j 2 versioned (by decide)⟩
  · have saved : (ofConfig namedConfig).save namedConfig "now" mixedResults .initial =
        (.ok "checkpoints/demo.checkpoint.json", keptFiles) := rfl
    have read : keptFiles.read ((ofConfig namedConfig).path namedConfig) =
        .ok (render namedConfig "now" mixedResults).toUTF8 :=
      read_of_save (ofConfig namedConfig) namedConfig saved
    obtain ⟨restores, _⟩ := load_of_bytes (ofConfig namedConfig) namedConfig keptFiles _ read
    have restored := load_of_content (ofConfig namedConfig) namedConfig read storable_mixedResults
      readsBack_mixedResults
    exact ⟨read, (restores _).mp ⟨_, restored, rfl⟩⟩

end Store

end GridSweep
