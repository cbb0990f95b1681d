import GridSweep.Proofs.Domain.Declared

/-!
Declarations made in place. A call checks its arguments and then changes the domain twice: it enters the
model and puts the parameter under it. A fault on the way would leave the domain as far as it has come by
then, but every fault comes before the first change (`Declaration.run_eq`). So whatever calls were made
before, the domain is sound, and the next call makes its whole declaration or none of it
(`sound_and_atomic`).
-/
namespace GridSweep

namespace Entries

variable {α : Type}

theorem put_put (name : String) (value older : α) (l : List (String × α)) :
    put name value (put name older l) = put name value l := by
  induction l with
  | nil => simp [put]
  | cons e rest ih =>
    by_cases here : e.1 = name
    · simp [put, here]
    · simp [put, here, ih]

/-- Putting a name that is there changes its entry and nothing beside it. -/
theorem put_of_find? {name : String} {older : α} {l : List (String × α)}
    (found : find? name l = some older) :
    ∃ before later, l = before ++ (name, older) :: later ∧
      ∀ value, put name value l = before ++ (name, value) :: later := by
  induction l with
  | nil => cases found
  | cons e rest ih =>
    by_cases here : e.1 = name
    · have same : e = (name, older) := Prod.ext here (by simpa [find?, here] using found)
      exact ⟨[], rest, by simp [same], fun value => by simp [put, here]⟩
    · obtain ⟨before, later, split, putting⟩ := ih (by simpa [find?, here] using found)
      exact ⟨e :: before, later, by simp [split], fun value => by simp [put, here, putting]⟩

end Entries

namespace Domain

inductive Declaration where
  | ofModel (model : String)
  | ofParameter (model parameter : String) (kind : ParameterKind)

/-- The model at its place, or behind all others and without parameters. -/
def entered (d : Domain) (model : String) : Domain :=
  if d.models.contains model then d else ⟨d.models.insert model .empty⟩

def extended (d : Domain) (model parameter : String) (kind : ParameterKind) : Domain :=
  match d.parameters? model with
  | some p => ⟨d.models.insert model (p.insert parameter kind)⟩
  | none => d

namespace Declaration

/-- The answer, and the domain as it then is. -/
def enter (d : Domain) (model : String) : Except Fault Unit × Domain :=
  if isBlankText model then (.error .blankModel, d) else (.ok (), d.entered model)

/-- One call on a domain in place, in the order of its checks and changes. -/
def run (d : Domain) : Declaration → Except Fault Unit × Domain
  | ofModel model => enter d model
  | ofParameter model parameter kind =>
    if isBlankText parameter then (.error (.blankParameter model), d)
    else match checkKind model parameter kind with
      | .error fault => (.error fault, d)
      | .ok () =>
        if (d.parameters? model).any (·.contains parameter) then
          (.error (.duplicateParameter model parameter), d)
        else match enter d model with
          | (.error fault, e) => (.error fault, e)
          | (.ok (), e) => (.ok (), e.extended model parameter kind)

/-- The domain with the declaration, as `addModel` and `addParameter` give it. -/
def made (d : Domain) : Declaration → Except Fault Domain
  | ofModel model => d.addModel model
  | ofParameter model parameter kind => d.addParameter model parameter kind

end Declaration

def declaredBy (calls : List Declaration) : Domain := calls.foldl (fun d call => (call.run d).2) .empty

section Atomic

variable {d e : Domain} {model parameter : String} {kind : ParameterKind}

/-- Entering a model and then extending it is extending what it had before, or nothing. -/
theorem extended_entered :
    (d.entered model).extended model parameter kind =
      ⟨d.models.insert model (((d.parameters? model).getD .empty).insert parameter kind)⟩ := by
  cases known : d.parameters? model with
  | some p =>
    have there : d.models.contains model = true := by
      rw [Table.contains, show d.models.find? model = some p from known]
      rfl
    simp [entered, there, extended, known]
  | none =>
    have absent : d.models.contains model = false := by
      rw [Table.contains, show d.models.find? model = none from known]
      rfl
    have twice (p : Parameters) :
        (d.models.insert model .empty).insert model p = d.models.insert model p :=
      Table.ext (Entries.put_put model p .empty d.models.entries)
    simp [extended, entered, absent, parameters?, Table.find?_insert, twice]

/-- A call in place makes the declaration, or it fails and the domain is what it was. -/
theorem Declaration.run_eq (call : Declaration) (d : Domain) :
    call.run d = match call.made d with
      | .ok e => (.ok (), e)
      | .error fault => (.error fault, d) := by
  cases call with
  | ofModel model =>
    simp only [run, made, enter, addModel, entered]
    split
    · rfl
    · split <;> rfl
  | ofParameter model parameter kind =>
    have known : (d.parameters? model).any (·.contains parameter) =
        ((d.parameters? model).getD .empty).contains parameter := by
      cases d.parameters? model <;> rfl
    simp only [run, made, addParameter, enter, known]
    cases isBlankText parameter with
    | true => rfl
    | false =>
      cases checkKind model parameter kind with
      | error fault => rfl
      | ok u =>
        cases ((d.parameters? model).getD .empty).contains parameter with
        | true => rfl
        | false =>
          cases isBlankText model with
          | true => rfl
          | false => exact congrArg (Prod.mk _) extended_entered

end Atomic

end Domain

theorem Distribution.isSound_iff {d : Distribution} : d.isSound = true ↔
    d.mean.isFinite = true ∧ d.stddev.isFinite = true ∧ 0 ≤ d.stddev.scaled := by
  simp [isSound, and_assoc]

structure Parameters.Sound (p : Parameters) : Prop where
  distinct : p.names.Nodup
  named : ∀ name ∈ p.names, isBlankText name = false
  candidates : ∀ name values, (name, .categorical values) ∈ p.entries → values ≠ []
  distributions : ∀ name d, (name, .distribution d) ∈ p.entries →
    d.mean.isFinite = true ∧ d.stddev.isFinite = true ∧ 0 ≤ d.stddev.scaled

namespace Domain

/-- What a domain keeps through all calls. -/
structure Sound (d : Domain) : Prop where
  distinct : d.models.names.Nodup
  named : ∀ model ∈ d.models.names, isBlankText model = false
  parameters : ∀ m ∈ d.models.entries, Parameters.Sound m.2

namespace Declaration

def Admissible (d : Domain) : Declaration → Prop
  | ofModel model => isBlankText model = false
  | ofParameter model parameter kind =>
    isBlankText model = false ∧ isBlankText parameter = false ∧ kind.Valid ∧
      ∀ p, d.parameters? model = some p → parameter ∉ p.names

/-- The change of a call that is made. Entries that are not named here stay as they are and where they
are. -/
inductive Changes (d e : Domain) : Declaration → Prop
  | none {model : String} (there : model ∈ d.models.names) (same : e = d) :
      Changes d e (ofModel model)
  | model {model : String} (fresh : model ∉ d.models.names)
      (last : e.models.entries = d.models.entries ++ [(model, .empty)]) :
      Changes d e (ofModel model)
  | both {model parameter : String} {kind : ParameterKind} {q : Parameters}
      (fresh : model ∉ d.models.names) (last : e.models.entries = d.models.entries ++ [(model, q)])
      (only : q.entries = [(parameter, kind)]) : Changes d e (ofParameter model parameter kind)
  | parameter {model parameter : String} {kind : ParameterKind} {p q : Parameters}
      {before later : List (String × Parameters)}
      (there : d.models.entries = before ++ (model, p) :: later)
      (stays : e.models.entries = before ++ (model, q) :: later)
      (last : q.entries = p.entries ++ [(parameter, kind)]) :
      Changes d e (ofParameter model parameter kind)

section Made

variable {d e : Domain} {call : Declaration}

theorem entered_of_mem {model : String} (there : model ∈ d.models.names) : d.entered model = d :=
  if_pos (Table.contains_iff.mpr there)

theorem entries_entered {model : String} (fresh : model ∉ d.models.names) :
    (d.entered model).models.entries = d.models.entries ++ [(model, .empty)] := by
  have absent : ¬ d.models.contains model = true := fun there => fresh (Table.contains_iff.mp there)
  rw [entered, if_neg absent]
  exact Table.insert_of_fresh fresh _

theorem made_ofModel {model : String} (named : isBlankText model = false) :
    (ofModel model).made d = .ok (d.entered model) := by
  simp only [made, addModel, named, Bool.false_eq_true, if_false, entered]
  split <;> rfl

theorem changes_of_made (given : call.made d = .ok e) : Changes d e call := by
  cases call with
  | ofModel model =>
    rw [made_ofModel (addModel_eq_ok given).1] at given
    obtain rfl := Except.ok.inj given
    by_cases there : model ∈ d.models.names
    · exact .none there (entered_of_mem there)
    · exact .model there (entries_entered there)
  | ofParameter model parameter kind =>
    obtain ⟨-, -, fresh, -, rfl⟩ := addParameter_eq_ok given
    have last {p : Parameters} (fresh : p.contains parameter = false) :
        (Table.insert p parameter kind).entries = p.entries ++ [(parameter, kind)] := by
      refine Table.insert_of_fresh (fun there => ?_) kind
      simp [Table.contains_iff.mpr there] at fresh
    cases known : d.parameters? model with
    | none =>
      have new : model ∉ d.models.names := Entries.find?_eq_none_iff.mp known
      exact .both new (Table.insert_of_fresh new _) (last rfl)
    | some p =>
      rw [known] at fresh
      obtain ⟨before, later, there, putting⟩ := Entries.put_of_find? known
      exact .parameter there (putting _) (last fresh)

theorem checkKind_of_valid {model parameter : String} {kind : ParameterKind} (valid : kind.Valid) :
    checkKind model parameter kind = .ok () := by
  cases kind with
  | fixed value => rfl
  | categorical values =>
    cases values with
    | nil => exact absurd rfl valid
    | cons value rest => rfl
  | distribution d => exact if_pos valid

theorem addParameter_of_valid {model parameter : String} {kind : ParameterKind}
    (named : isBlankText parameter = false) (valid : kind.Valid)
    (fresh : ((d.parameters? model).getD .empty).contains parameter = false)
    (named' : isBlankText model = false) :
    d.addParameter model parameter kind =
      .ok ⟨d.models.insert model (((d.parameters? model).getD .empty).insert parameter kind)⟩ := by
  have checked : checkKind model parameter kind = .ok () := checkKind_of_valid valid
  simp only [addParameter, named, checked, fresh, named']
  rfl

theorem contains_eq_false_iff {model parameter : String} :
    ((d.parameters? model).getD .empty).contains parameter = false ↔
      ∀ p, d.parameters? model = some p → parameter ∉ p.names := by
  rw [← Bool.not_eq_true, Table.contains_iff]
  cases d.parameters? model with
  | none => simp [Table.names, Table.empty]
  | some p => simp

theorem admissible_iff : call.Admissible d ↔ ∃ e, call.made d = .ok e := by
  cases call with
  | ofModel model =>
    constructor
    · intro named
      exact ⟨_, made_ofModel named⟩
    · rintro ⟨e, given⟩
      exact (addModel_eq_ok given).1
  | ofParameter model parameter kind =>
    constructor
    · rintro ⟨named, named', valid, fresh⟩
      have unknown := contains_eq_false_iff.mpr fresh
      exact ⟨_, addParameter_of_valid named' valid unknown named⟩
    · rintro ⟨e, given⟩
      obtain ⟨named', valid, fresh, named, -⟩ := addParameter_eq_ok given
      exact ⟨named, named', valid, contains_eq_false_iff.mp fresh⟩

end Made

end Declaration

section Kept

variable {d e : Domain}

theorem Declared.run (h : d.Declared) (call : Declaration) : (call.run d).2.Declared := by
  rw [call.run_eq]
  cases given : call.made d with
  | error fault => exact h
  | ok e =>
    cases call with
    | ofModel model => exact h.addModel given
    | ofParameter model parameter kind => exact h.addParameter given

theorem declared_declaredBy (calls : List Declaration) : (declaredBy calls).Declared := by
  have general (d : Domain) (h : d.Declared) :
      (calls.foldl (fun d call => (call.run d).2) d).Declared := by
    induction calls generalizing d with
    | nil => exact h
    | cons call rest ih => exact ih _ (h.run call)
  exact general .empty .empty

structure Named (d : Domain) : Prop where
  models : ∀ m ∈ d.models.entries, isBlankText m.1 = false
  parameters : ∀ m ∈ d.models.entries, ∀ p ∈ m.2.entries, isBlankText p.1 = false

theorem Named.addModel {model : String} (named : d.Named) (made : d.addModel model = .ok e) :
    e.Named := by
  obtain ⟨given, rfl | ⟨-, rfl⟩⟩ := addModel_eq_ok made
  · exact named
  · refine ⟨fun m hm => ?_, fun m hm p hp => ?_⟩
    · rcases Entries.mem_put hm with rfl | hm
      · exact given
      · exact named.models m hm
    · rcases Entries.mem_put hm with rfl | hm
      · cases hp
      · exact named.parameters m hm p hp

theorem Named.addParameter {model parameter : String} {kind : ParameterKind} (named : d.Named)
    (made : d.addParameter model parameter kind = .ok e) : e.Named := by
  obtain ⟨given, -, -, given', rfl⟩ := addParameter_eq_ok made
  refine ⟨fun m hm => ?_, fun m hm p hp => ?_⟩
  · rcases Entries.mem_put hm with rfl | hm
    · exact given'
    · exact named.models m hm
  · rcases Entries.mem_put hm with rfl | hm
    · rcases Entries.mem_put hp with rfl | hp
      · exact given
      · cases known : d.parameters? model with
        | none => simp [known, Table.empty] at hp
        | some older =>
          rw [known] at hp
          exact named.parameters _ (mem_of_parameters? known) p hp
    · exact named.parameters m hm p hp

theorem Declared.named (h : d.Declared) : d.Named := by
  induction h with
  | empty => exact ⟨fun _ hm => (List.not_mem_nil hm).elim, fun _ hm => (List.not_mem_nil hm).elim⟩
  | addModel _ made ih => exact ih.addModel made
  | addParameter _ made ih => exact ih.addParameter made

theorem Declared.sound (h : d.Declared) : d.Sound where
  distinct := d.models.distinct
  named := List.forall_mem_map.mpr h.named.models
  parameters m hm :=
    { distinct := m.2.distinct
      named := List.forall_mem_map.mpr (h.named.parameters m hm)
      candidates := fun _ _ hp => h.valid m hm _ hp
      distributions := fun _ _ hp => Distribution.isSound_iff.mp (h.valid m hm _ hp) }

end Kept

/-- Whatever was called before, with whatever success, the domain is sound; and the next call is
admissible and makes its change, or it is not, fails, and leaves the domain as it was. The domain it
leaves is the one that the declaration gives on its own. -/
theorem sound_and_atomic (calls : List Declaration) :
    (declaredBy calls).Sound ∧ ∀ call : Declaration,
      call.Admissible (declaredBy calls) ∧
        (∃ e, call.made (declaredBy calls) = .ok e ∧ call.run (declaredBy calls) = (.ok (), e) ∧
          call.Changes (declaredBy calls) e) ∨
      ¬ call.Admissible (declaredBy calls) ∧
        ∃ fault, call.made (declaredBy calls) = .error fault ∧
          call.run (declaredBy calls) = (.error fault, declaredBy calls) := by
  refine ⟨(declared_declaredBy calls).sound, fun call => ?_⟩
  rw [call.admissible_iff, call.run_eq]
  cases given : call.made (declaredBy calls) with
  | ok e => exact .inl ⟨⟨e, rfl⟩, e, rfl, rfl, Declaration.changes_of_made given⟩
  | error fault => exact .inr ⟨by simp, fault, rfl, rfl⟩

end Domain

end GridSweep
