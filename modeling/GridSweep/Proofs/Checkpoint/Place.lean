import GridSweep.Checkpoint.Store
import GridSweep.Proofs.Files.Location
import GridSweep.Proofs.Text.Slug

/-!
Where checkpoints lie. The file name of a configuration is a single part of a path whatever the
configuration is called, so the checkpoints of a store lie in its directory, at one place for one slug
and at different places for different slugs. Two names share a slug, and with it a file, only where one
of them is written as the other's stem and digest.
-/
namespace GridSweep

/-- A plain name with the ending of checkpoint files is a single part of a path. -/
theorem Slug.Plain.isName_file {name : String} (plain : Slug.Plain name) :
    Path.IsName (name ++ ".checkpoint.json") := by
  have text : (name ++ ".checkpoint.json").toList = name.toList ++ ".checkpoint.json".toList :=
    String.toList_append
  have long : 2 < (name ++ ".checkpoint.json").toList.length := by
    rw [text, List.length_append]
    have : ".checkpoint.json".toList.length = 16 := by decide
    omega
  have other {s : String} (short : s.toList.length ≤ 2) : name ++ ".checkpoint.json" ≠ s := by
    rintro rfl
    omega
  refine ⟨?_, other (by decide), other (by decide), other (by decide)⟩
  rw [text, List.mem_append]
  rintro (slug | ending)
  · exact absurd (plain.chars _ slug) (by decide)
  · exact absurd ending (by decide)

theorem Config.isName_fileName (c : Config) : Path.IsName c.fileName :=
  (Slug.plain_ofName c.identity).isName_file

namespace Store

variable (s : Store) (home : Files.Location) (c e : Config)

/-- Where the checkpoint of a configuration lies, for paths seen from a home. -/
def place (home : Files.Location) (c : Config) : Files.Location := Path.locate home (s.path c)

theorem place_eq : s.place home c = Path.locate home s.directory ++ [c.fileName] :=
  Path.locate_join c.isName_fileName

theorem path_eq_iff : s.path c = s.path e ↔ Slug.ofName c.identity = Slug.ofName e.identity := by
  constructor
  · intro same
    have located : Path.locate [] (s.path c) = Path.locate [] (s.path e) := by rw [same]
    have names := (Path.locate_join_inj c.isName_fileName e.isName_fileName).mp located
    exact (String.append_left_inj _).mp names
  · intro same
    rw [path, path, Config.fileName, Config.fileName, same]

theorem place_inj : s.place home c = s.place home e ↔ s.path c = s.path e := by
  constructor
  · intro same
    have names := (Path.locate_join_inj c.isName_fileName e.isName_fileName).mp same
    rw [path, path, names]
  · intro same
    rw [place, place, same]

/-- Whatever digest is taken, a slug is plain and not empty. It is the name itself just for plain names and
ends in a hyphen and twelve digits of the digest for all others; it is its own slug; and its checkpoint
file lies in the directory that it is joined to. The digest of the program is such a one, so a checkpoint
lies in the directory of its store. -/
theorem slug_safe_and_stable :
    (∀ digest, Slug.Hexadecimal digest → ∀ name,
      (Slug.under digest name ≠ "" ∧ Slug.Plain (Slug.under digest name)) ∧
      (Slug.under digest name = name ↔ Slug.Plain name) ∧
      (¬Slug.Plain name → Slug.Marked (Slug.under digest name)) ∧
      Slug.under digest (Slug.under digest name) = Slug.under digest name ∧
      Path.IsName (Slug.under digest name ++ ".checkpoint.json") ∧
      ∀ home directory,
        Path.locate home (Path.join directory (Slug.under digest name ++ ".checkpoint.json")) =
          Path.locate home directory ++ [Slug.under digest name ++ ".checkpoint.json"]) ∧
    Slug.Hexadecimal Sha256.hex ∧ (∀ name, Slug.ofName name = Slug.under Sha256.hex name) ∧
    ∀ (s : Store) (c : Config) (home : Files.Location),
      s.place home c = Path.locate home s.directory ++ [Slug.ofName c.identity ++ ".checkpoint.json"] := by
  refine ⟨fun digest hexadecimal name => ?_, Slug.hexadecimal_sha256, fun _ => rfl, fun s c home => ?_⟩
  · have plain := Slug.plain_under hexadecimal name
    refine ⟨⟨?_, plain⟩, Slug.under_eq_self_iff hexadecimal, Slug.marked_under hexadecimal,
      Slug.under_under hexadecimal name, plain.isName_file, fun home directory => ?_⟩
    · exact plain.nonempty
    · exact Path.locate_join plain.isName_file
  · exact s.place_eq home c

theorem slug_safe_and_stable_climbing :
    Slug.Hexadecimal (fun _ => "0123456789abcdef") ∧ ¬Slug.Plain " ../É" ∧
      Slug.under (fun _ => "0123456789abcdef") " ../É" = "..__-0123456789ab" ∧
      ∀ home, Path.locate home "out/..__-0123456789ab.checkpoint.json" =
        Path.locate home "out" ++ ["..__-0123456789ab.checkpoint.json"] := by
  have hexadecimal : Slug.Hexadecimal fun _ => "0123456789abcdef" :=
    ⟨fun _ => by decide, fun _ _ digit => digit⟩
  have other : ¬Slug.Plain " ../É" := mt Slug.stem_eq_self_iff.mpr (by decide)
  have slug : Slug.under (fun _ => "0123456789abcdef") " ../É" = "..__-0123456789ab" := by decide
  obtain ⟨-, -, -, -, -, place⟩ := slug_safe_and_stable.1 _ hexadecimal " ../É"
  refine ⟨hexadecimal, other, slug, fun home => ?_⟩
  rw [slug] at place
  exact place home "out"

/-- Which names share a checkpoint file: names that are both slugs do not, nor do names that both are
none, nor do names without a digest at their end; but the slug of a name, as a name, shares its file. -/
theorem shared_iff (a b : String) (apart : Slug.Apart a b) :
    (Slug.ofName a = Slug.ofName b ↔ a = b ∨ a = Slug.ofName b ∨ b = Slug.ofName a) ∧
    ((Slug.Plain a ↔ Slug.Plain b) → (Slug.ofName a = Slug.ofName b ↔ a = b)) ∧
    (¬Slug.Marked a → ¬Slug.Marked b → (Slug.ofName a = Slug.ofName b ↔ a = b)) ∧
    ∀ (s : Store) (c e : Config), c.identity = a → e.identity = b →
      (s.path c = s.path e ↔ Slug.ofName a = Slug.ofName b) := by
  refine ⟨Slug.ofName_eq_iff apart, Slug.ofName_inj apart, ?_, ?_⟩
  · intro unmarkedA unmarkedB
    rw [Slug.ofName_eq_iff apart]
    constructor
    · rintro (same | taken | taken)
      · exact same
      · by_contra different
        exact unmarkedA (Slug.marked_of_eq_ofName different taken)
      · by_contra different
        exact unmarkedB (Slug.marked_of_eq_ofName (Ne.symm different) taken)
    · exact .inl
  · rintro s c e rfl rfl
    exact s.path_eq_iff c e

def called (name : String) : Config := .ofDomain (some name) .empty ⟨"checkpoints", 1⟩

theorem shared_iff_capital :
    (∀ s : Store, s.path (called "M") = s.path (called "m-08f271887ce9")) ∧
    ∀ s : Store, s.path (called "Demo") ≠ s.path (called "DEMO") := by
  constructor
  · have kept : Slug.stem "m-08f271887ce9" = "m-08f271887ce9" := by decide
    have taken : "m-08f271887ce9" = Slug.ofName "M" := by decide +kernel
    obtain ⟨slugs, -, -, files⟩ := shared_iff "M" "m-08f271887ce9"
      fun _ other => absurd kept other
    exact fun s => (files s _ _ (by decide) (by decide)).mpr (slugs.mpr (.inr (.inr taken)))
  · have digests : Slug.suffix "Demo" ≠ Slug.suffix "DEMO" := by decide +kernel
    have other : ¬Slug.Plain "Demo" := mt Slug.stem_eq_self_iff.mpr (by decide)
    have other' : ¬Slug.Plain "DEMO" := mt Slug.stem_eq_self_iff.mpr (by decide)
    obtain ⟨-, slugs, -, files⟩ := shared_iff "Demo" "DEMO" fun _ _ _ => digests
    intro s same
    have names := (slugs (by simp [other, other'])).mp ((files s _ _ (by decide) (by decide)).mp same)
    exact absurd names (by decide)

end Store

end GridSweep
