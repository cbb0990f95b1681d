import GridSweep.Config.Basic
import GridSweep.Proofs.Json.Matching

namespace GridSweep

/-- Parameters of one kind whose values have the same canonical texts, in order. -/
def ParameterKind.Alike : ParameterKind → ParameterKind → Prop
  | fixed v, fixed w => v.canonical = w.canonical
  | categorical l, categorical m => l.map Json.canonical = m.map Json.canonical
  | distribution d, distribution e => d.encode.canonical = e.encode.canonical
  | _, _ => False

theorem ParameterKind.canonical_encode_inj {k l : ParameterKind} :
    k.encode.canonical = l.encode.canonical ↔ k.Alike l := by
  cases k <;> cases l <;>
    simp only [encode, Json.canonical_single_inj, Json.canonical_arr_inj, Alike, true_and] <;>
    simp

/-- Under every name alike parameters, or none. -/
def Parameters.Alike (p q : Parameters) : Prop :=
  ∀ name, Option.Rel ParameterKind.Alike (p.find? name) (q.find? name)

def Domain.Alike (d e : Domain) : Prop :=
  ∀ model, Option.Rel Parameters.Alike (d.parameters? model) (e.parameters? model)

theorem Parameters.canonical_encode_inj {p q : Parameters} :
    (Domain.encodeParameters p).canonical = (Domain.encodeParameters q).canonical ↔ p.Alike q := by
  rw [Domain.encodeParameters, Domain.encodeParameters, Json.canonical_ofEntries_inj]
  apply forall_congr'
  intro name
  apply Iff.symm
  apply rel_iff_map_eq
  intro k _ l
  exact ParameterKind.canonical_encode_inj.symm

theorem Domain.canonical_encode_inj {d e : Domain} :
    d.encode.canonical = e.encode.canonical ↔ d.Alike e := by
  rw [encode, encode, Json.canonical_single_inj, Json.canonical_ofEntries_inj, and_iff_right rfl]
  apply forall_congr'
  intro model
  apply Iff.symm
  apply rel_iff_map_eq
  intro p _ q
  exact Parameters.canonical_encode_inj.symm

theorem Config.signature_inj {c e : Config} :
    c.signature.canonical = e.signature.canonical ↔
      c.identity = e.identity ∧ c.domain.Alike e.domain := by
  rw [signature, signature, Json.canonical_pair_inj (by decide), Json.canonical_str_inj,
    Domain.canonical_encode_inj]

end GridSweep
