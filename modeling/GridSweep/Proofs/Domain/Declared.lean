import GridSweep.Domain.Basic
import GridSweep.Proofs.Table

namespace GridSweep

def ParameterKind.Valid : ParameterKind → Prop
  | fixed _ => True
  | categorical values => values ≠ []
  | distribution d => d.isSound = true

namespace Domain

/-- The domains that declarations reach from the empty one, one call after the other. A call that
fails leaves the domain as it was, so it adds nothing here. -/
inductive Declared : Domain → Prop where
  | empty : Declared .empty
  | addModel {d e : Domain} {model : String} :
      Declared d → d.addModel model = .ok e → Declared e
  | addParameter {d e : Domain} {model parameter : String} {kind : ParameterKind} :
      Declared d → d.addParameter model parameter kind = .ok e → Declared e

def Valid (d : Domain) : Prop :=
  ∀ m ∈ d.models.entries, ∀ p ∈ m.2.entries, p.2.Valid

theorem addModel_eq_ok {d e : Domain} {model : String} (h : d.addModel model = .ok e) :
    isBlankText model = false ∧
      (e = d ∨ d.parameters? model = none ∧ e = ⟨d.models.insert model .empty⟩) := by
  unfold addModel at h
  split at h
  · cases h
  · rename_i blank
    refine ⟨by simpa using blank, ?_⟩
    split at h
    · exact .inl (Except.ok.inj h).symm
    · rename_i unknown
      exact .inr ⟨by simpa [Table.contains, parameters?] using unknown, (Except.ok.inj h).symm⟩

theorem checkKind_eq_ok {model parameter : String} {kind : ParameterKind}
    (h : checkKind model parameter kind = .ok ()) : kind.Valid := by
  cases kind with
  | fixed value => trivial
  | categorical values =>
    cases values with
    | nil => cases h
    | cons value rest => exact List.cons_ne_nil value rest
  | distribution d =>
    simp only [checkKind] at h
    split at h
    · assumption
    · cases h

theorem addParameter_eq_ok {d e : Domain} {model parameter : String} {kind : ParameterKind}
    (h : d.addParameter model parameter kind = .ok e) :
    isBlankText parameter = false ∧ kind.Valid ∧
      ((d.parameters? model).getD .empty).contains parameter = false ∧ isBlankText model = false ∧
      e = ⟨d.models.insert model (((d.parameters? model).getD .empty).insert parameter kind)⟩ := by
  unfold addParameter at h
  cases blank : isBlankText parameter with
  | true => rw [blank] at h; cases h
  | false =>
    cases checked : checkKind model parameter kind with
    | error fault => rw [blank, checked] at h; cases h
    | ok u =>
      cases known : ((d.parameters? model).getD .empty).contains parameter with
      | true => rw [blank, checked] at h; simp only [known] at h; cases h
      | false =>
        cases blankModel : isBlankText model with
        | true => rw [blank, checked, blankModel] at h; simp only [known] at h; cases h
        | false =>
          rw [blank, checked, blankModel] at h
          simp only [known] at h
          exact ⟨rfl, checkKind_eq_ok checked, rfl, rfl, (Except.ok.inj h).symm⟩

theorem valid_empty : Valid .empty := by
  intro m hm
  cases hm

theorem mem_of_parameters? {d : Domain} {model : String} {p : Parameters}
    (h : d.parameters? model = some p) : (model, p) ∈ d.models.entries :=
  Entries.mem_of_find? h

theorem Valid.addModel {d e : Domain} {model : String} (valid : d.Valid)
    (h : d.addModel model = .ok e) : e.Valid := by
  obtain ⟨-, rfl | ⟨-, rfl⟩⟩ := addModel_eq_ok h
  · exact valid
  · intro m hm p hp
    rcases Entries.mem_put hm with rfl | hm
    · cases hp
    · exact valid m hm p hp

theorem Valid.addParameter {d e : Domain} {model parameter : String} {kind : ParameterKind}
    (valid : d.Valid) (h : d.addParameter model parameter kind = .ok e) : e.Valid := by
  obtain ⟨-, good, -, -, rfl⟩ := addParameter_eq_ok h
  intro m hm p hp
  rcases Entries.mem_put hm with rfl | hm
  · rcases Entries.mem_put hp with rfl | hp
    · exact good
    · -- an older parameter of the same model
      cases known : d.parameters? model with
      | none => rw [known] at hp; cases hp
      | some older =>
        rw [known] at hp
        exact valid _ (mem_of_parameters? known) p hp
  · exact valid m hm p hp

theorem Declared.valid {d : Domain} (h : d.Declared) : d.Valid := by
  induction h with
  | empty => exact valid_empty
  | addModel _ made ih => exact ih.addModel made
  | addParameter _ made ih => exact ih.addParameter made

theorem Declared.addParameters {d e : Domain} {model : String}
    {parameters : List (String × ParameterKind)} (h : d.Declared)
    (made : d.addParameters model parameters = .ok e) : e.Declared := by
  induction parameters generalizing d with
  | nil => exact Except.ok.inj made ▸ h
  | cons p rest ih =>
    rw [Domain.addParameters, List.foldlM_cons] at made
    cases first : d.addParameter model p.1 p.2 with
    | error fault => rw [first] at made; cases made
    | ok next =>
      rw [first] at made
      exact ih (h.addParameter first) made

end Domain

end GridSweep
