import GridSweep.Proofs.Checkpoint.RoundTrip
import GridSweep.Proofs.Config.Signature

namespace GridSweep

inductive ParameterKind.Matches : ParameterKind → ParameterKind → Prop
  | fixed {v w : Json} (values : v.Matches w) : Matches (fixed v) (fixed w)
  | categorical {l m : List Json} (values : List.Forall₂ Json.Matches l m) :
      Matches (categorical l) (categorical m)
  | distribution {d e : Distribution}
      (mean : (Json.ofDouble d.mean).Matches (Json.ofDouble e.mean))
      (stddev : (Json.ofDouble d.stddev).Matches (Json.ofDouble e.stddev)) :
      Matches (distribution d) (distribution e)

def Parameters.Matches (p q : Parameters) : Prop :=
  ∀ name, Option.Rel ParameterKind.Matches (p.find? name) (q.find? name)

namespace Domain

def Matches (d e : Domain) : Prop :=
  ∀ model, Option.Rel Parameters.Matches (d.parameters? model) (e.parameters? model)

def kind? (d : Domain) (model parameter : String) : Option ParameterKind :=
  (d.parameters? model).bind (·.find? parameter)

end Domain

theorem ParameterKind.alike_iff_matches {k k' : ParameterKind} : k.Alike k' ↔ k.Matches k' := by
  cases k with
  | fixed v =>
    cases k' with
    | fixed w =>
      simp only [Alike, Json.canonical_eq_iff_matches]
      constructor
      · exact .fixed
      · intro h
        cases h
        assumption
    | _ => constructor <;> intro h <;> cases h
  | categorical l =>
    cases k' with
    | categorical m =>
      have each : List.Forall₂ Json.Matches l m ↔ l.map Json.canonical = m.map Json.canonical :=
        forall₂_iff_map_eq fun v _ w _ => Json.canonical_eq_iff_matches.symm
      simp only [Alike, ← each]
      constructor
      · exact .categorical
      · intro h
        cases h
        assumption
    | _ => constructor <;> intro h <;> cases h
  | distribution d =>
    cases k' with
    | distribution e =>
      have parts : d.encode.canonical = e.encode.canonical ↔
          (Json.ofDouble d.mean).Matches (Json.ofDouble e.mean) ∧
            (Json.ofDouble d.stddev).Matches (Json.ofDouble e.stddev) := by
        simp only [Distribution.encode, ← Json.canonical_eq_iff_matches]
        exact Json.canonical_pair_inj (by decide)
      simp only [Alike, parts]
      constructor
      · rintro ⟨mean, stddev⟩
        exact .distribution mean stddev
      · intro h
        cases h with
        | distribution mean stddev => exact ⟨mean, stddev⟩
    | _ => constructor <;> intro h <;> cases h

theorem Domain.alike_iff_matches {d e : Domain} : d.Alike e ↔ d.Matches e := by
  have kinds : ParameterKind.Alike = ParameterKind.Matches :=
    funext fun k => funext fun l => propext ParameterKind.alike_iff_matches
  have parameters : Parameters.Alike = Parameters.Matches := by
    funext p q
    simp only [Parameters.Alike, Parameters.Matches, kinds]
  simp only [Alike, Matches, parameters]

theorem Domain.Matches.kind? {d e : Domain} (same : d.Matches e) (model parameter : String) :
    Option.Rel ParameterKind.Matches (d.kind? model parameter) (e.kind? model parameter) := by
  have models := same model
  unfold Domain.kind?
  cases hp : d.parameters? model <;> cases hq : e.parameters? model <;> simp only [hp, hq] at models
  case none.none => exact .none
  case some.some p q =>
    cases models with
    | some each => exact each parameter
  all_goals cases models

namespace Config

theorem fingerprint_congr {c e : Config} (names : c.name = e.name) (domains : c.domain = e.domain) :
    c.fingerprint = e.fingerprint := by
  unfold fingerprint signature identity
  rw [names, domains]

/-- Two configurations have one fingerprint when they go by one name and declare the same, and only
then, unless the digest fails to tell their signatures apart. Just then the one takes over what the
other has saved. A parameter that the other lacks, or has otherwise, is enough to keep them apart; and
nothing counts but name and domain. -/
theorem fingerprint_eq_iff (c e : Config)
    (noCollision : Sha256.hex c.signature.canonical = Sha256.hex e.signature.canonical →
      c.signature.canonical = e.signature.canonical) :
    (c.fingerprint = e.fingerprint ↔ c.identity = e.identity ∧ c.domain.Matches e.domain) ∧
    (∀ path time s, (∀ r ∈ s.records, r.Storable ∧ r.ReadsBack) →
      (c.identity = e.identity ∧ c.domain.Matches e.domain →
        Checkpoint.accept path e.fingerprint (Store.render c time s).toUTF8 = .ok s.sorted) ∧
      (¬ (c.identity = e.identity ∧ c.domain.Matches e.domain) →
        Checkpoint.accept path e.fingerprint (Store.render c time s).toUTF8 =
          .error (.foreign path c.fingerprint e.fingerprint))) ∧
    (∀ model parameter, ¬ Option.Rel ParameterKind.Matches (c.domain.kind? model parameter)
      (e.domain.kind? model parameter) → c.fingerprint ≠ e.fingerprint) ∧
    (c.name = e.name → c.domain = e.domain → c.fingerprint = e.fingerprint) := by
  have identifies :
      c.fingerprint = e.fingerprint ↔ c.identity = e.identity ∧ c.domain.Matches e.domain := by
    rw [← Domain.alike_iff_matches, ← signature_inj]
    exact ⟨noCollision, congrArg Sha256.hex⟩
  refine ⟨identifies, ?_, ?_, fingerprint_congr⟩
  · intro path time s kept
    have storable : ∀ r ∈ s.records, r.Storable := fun r hr => (kept r hr).1
    have back : ∀ r ∈ s.records, r.ReadsBack := fun r hr => (kept r hr).2
    constructor
    · intro same
      rw [Checkpoint.accept_render_of storable back, if_pos (identifies.mpr same)]
    · intro apart
      rw [Checkpoint.accept_render_of storable back, if_neg (mt identifies.mp apart)]
  · intro model parameter apart same
    exact apart ((identifies.mp same).2.kind? model parameter)

/-- A configuration of one model whose width is this number. -/
def ofWidth (width : Number) (settings : CheckpointSettings) : Config :=
  .ofDomain (some "demo") ⟨Table.empty.insert "m" (Table.empty.insert "width" (.fixed (.num width)))⟩
    settings

/-- The integer one and the floating-point one are written differently, so a checkpoint of the one is
foreign to the other; kept elsewhere, the same width goes by the same fingerprint. -/
theorem fingerprint_eq_iff_ofWidth :
    (ofWidth (.int 1) .standard).fingerprint ≠ (ofWidth (.float .one) .standard).fingerprint ∧
    (ofWidth (.int 1) .standard).fingerprint = (ofWidth (.int 1) ⟨"elsewhere", 0⟩).fingerprint := by
  have apart : ¬ Option.Rel ParameterKind.Matches
      ((ofWidth (.int 1) .standard).domain.kind? "m" "width")
      ((ofWidth (.float .one) .standard).domain.kind? "m" "width") := by
    intro same
    cases same with
    | some kinds =>
      cases kinds with
      | fixed values =>
        cases values with
        | num texts => exact absurd texts (by decide +kernel)
  have digests : Sha256.hex (ofWidth (.int 1) .standard).signature.canonical ≠
      Sha256.hex (ofWidth (.float .one) .standard).signature.canonical := by
    decide +kernel
  obtain ⟨_, _, differ, _⟩ := fingerprint_eq_iff (ofWidth (.int 1) .standard)
    (ofWidth (.float .one) .standard) fun same => absurd same digests
  obtain ⟨_, _, _, settings⟩ := fingerprint_eq_iff (ofWidth (.int 1) .standard)
    (ofWidth (.int 1) ⟨"elsewhere", 0⟩) fun _ => rfl
  exact ⟨differ "m" "width" apart, settings rfl rfl⟩

end Config

end GridSweep
