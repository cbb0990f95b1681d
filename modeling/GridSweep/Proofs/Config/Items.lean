import GridSweep.Config.Basic
import GridSweep.Proofs.Domain.Declaring
import GridSweep.Proofs.Domain.Ranges
import Mathlib.Data.List.Induction

/-!
Declarations of a file as one list, each model followed by its parameters. A declaration offends by what it
says or by what was declared before it, and then it fails with the fault that it offends by
(`SweepFile.Item.declare_of_offends`, `offends_of_declare`); one that is made keeps the domain that of the
declarations so far (`Built.concat`). So a list is declared in full, or up to the first that offends
(`declareList_cases`).
-/
namespace GridSweep

namespace ParameterSpec

/-- A range lists something; all else is no range. -/
def Ranged : ParameterSpec → Prop
  | linear min max step => 0 < step ∧ min ≤ max
  | exponential min max => min ≤ max ∧ max ≤ 62
  | fixed _ | categorical _ | distribution _ _ => True

def Sound : ParameterSpec → Prop
  | fixed _ => True
  | categorical values => values ≠ []
  | linear min max step => 0 < step ∧ min ≤ max
  | exponential min max => min ≤ max ∧ max ≤ 62
  | distribution mean stddev => mean.isFinite = true ∧ stddev.isFinite = true ∧ 0 ≤ stddev.scaled

def expanded : ParameterSpec → ParameterKind
  | fixed value => .fixed value
  | categorical values => .categorical values
  | linear min max step => .progression min max step
  | exponential min max => .powersOfTwo min max
  | distribution mean stddev => .distribution ⟨mean, stddev⟩

theorem Sound.ranged {s : ParameterSpec} (h : s.Sound) : s.Ranged := by
  cases s with
  | fixed | categorical | distribution => trivial
  | linear | exponential => exact h

theorem toKind_of_ranged {s : ParameterSpec} (h : s.Ranged) : s.toKind = .ok s.expanded := by
  cases s with
  | fixed | categorical | distribution => rfl
  | linear min max step => exact (ParameterKind.linear_eq min max step).trans (if_pos h)
  | exponential min max => exact (ParameterKind.exponential_eq min max).trans (if_pos h)

/-- Past its range, a declaration is checked by what it stands for. -/
theorem expanded_valid_iff {s : ParameterSpec} (ranged : s.Ranged) : s.expanded.Valid ↔ s.Sound := by
  cases s with
  | fixed | categorical => rfl
  | distribution => exact Distribution.isSound_iff
  | linear min max step =>
    have order : min.toInt ≤ max.toInt := Int64.le_iff_toInt_le.mp ranged.2
    have listed := Range.progression_of_le (Range.positive_toInt ranged.1) order
    simp [expanded, ParameterKind.progression, ParameterKind.Valid, Sound, ranged.1, ranged.2, listed]
  | exponential min max =>
    have filled : max + 1 - min ≠ 0 := by have := ranged.1; omega
    simp [expanded, ParameterKind.powersOfTwo, ParameterKind.Valid, Sound, ranged.1, ranged.2, filled]

end ParameterSpec

namespace Domain

variable {d : Domain} {model parameter : String} {kind : ParameterKind} {fault : Fault}

theorem addModel_eq_error_iff :
    d.addModel model = .error fault ↔ isBlankText model = true ∧ fault = .blankModel := by
  unfold addModel
  cases isBlankText model with
  | true => simp [@eq_comm _ fault]
  | false =>
    simp only [Bool.false_eq_true, if_false, false_and, iff_false]
    split <;> simp

theorem checkKind_eq_error_iff : checkKind model parameter kind = .error fault ↔
    kind = .categorical [] ∧ fault = .emptyCategorical model parameter ∨
      ∃ c, kind = .distribution c ∧ c.isSound = false ∧
        fault = .unsoundDistribution model parameter c := by
  cases kind with
  | fixed value => simp [checkKind]
  | categorical values => cases values <;> simp [checkKind, @eq_comm _ fault]
  | distribution c => cases sound : c.isSound <;> simp [checkKind, sound, @eq_comm _ fault]

/-- The faults of a parameter in the order of the checks. -/
theorem addParameter_eq_error_iff : d.addParameter model parameter kind = .error fault ↔
    isBlankText parameter = true ∧ fault = .blankParameter model ∨
    isBlankText parameter = false ∧
      (checkKind model parameter kind = .error fault ∨
      kind.Valid ∧
        (((d.parameters? model).getD .empty).contains parameter = true ∧
            fault = .duplicateParameter model parameter ∨
          ((d.parameters? model).getD .empty).contains parameter = false ∧
            isBlankText model = true ∧ fault = .blankModel)) := by
  unfold addParameter
  cases isBlankText parameter with
  | true => simp [bind, Except.bind, @eq_comm _ fault]
  | false =>
    cases checked : checkKind model parameter kind with
    | error other =>
      have unsound : ¬ kind.Valid := fun valid => by
        rw [Declaration.checkKind_of_valid valid] at checked
        cases checked
      simp [bind, Except.bind, unsound]
    | ok u =>
      have valid : kind.Valid := checkKind_eq_ok checked
      cases known : ((d.parameters? model).getD .empty).contains parameter <;>
        cases isBlankText model <;>
          simp [bind, Except.bind, pure, Except.pure, known, valid, @eq_comm _ fault]

end Domain

namespace SweepFile

inductive Item where
  | ofModel (name : String)
  | ofParameter (model : String) (p : ParameterDecl)

/-- A model, and its parameters after it. -/
def itemsOf (m : ModelDecl) : List Item := .ofModel m.name :: m.parameters.map (.ofParameter m.name)

def items (f : SweepFile) : List Item := f.models.flatMap itemsOf

namespace Item

def owner : Item → String
  | ofModel name => name
  | ofParameter model _ => model

def parameterOf? (name : String) : Item → Option ParameterDecl
  | ofModel _ => none
  | ofParameter model p => if model = name then some p else none

def declare (d : Domain) : Item → Except Domain.Fault Domain
  | ofModel name => d.addModel name
  | ofParameter model p => Config.declareParameter model d p

def parametersOf (l : List Item) (model : String) : List ParameterDecl :=
  l.filterMap (parameterOf? model)

/-- The ways to offend after the declarations `l`. Where a declaration offends in several ways, its range
is the first to tell, then its name, its values, and the names before it. -/
inductive Offends (l : List Item) : Item → Domain.Fault → Prop
  | model {name : String} (blank : isBlankText name = true) : Offends l (.ofModel name) .blankModel
  | linear {model name : String} {min max step : Int64} (empty : ¬ (0 < step ∧ min ≤ max)) :
      Offends l (.ofParameter model ⟨name, .linear min max step⟩) (.emptyLinear min max step)
  | exponential {model name : String} {min max : Nat} (empty : ¬ (min ≤ max ∧ max ≤ 62)) :
      Offends l (.ofParameter model ⟨name, .exponential min max⟩) (.emptyExponential min max)
  | name {model : String} {p : ParameterDecl} (ranged : p.spec.Ranged)
      (blank : isBlankText p.name = true) : Offends l (.ofParameter model p) (.blankParameter model)
  | categorical {model name : String} (named : isBlankText name = false) :
      Offends l (.ofParameter model ⟨name, .categorical []⟩) (.emptyCategorical model name)
  | distribution {model name : String} {mean stddev : Double} (named : isBlankText name = false)
      (unsound : ¬ (mean.isFinite = true ∧ stddev.isFinite = true ∧ 0 ≤ stddev.scaled)) :
      Offends l (.ofParameter model ⟨name, .distribution mean stddev⟩)
        (.unsoundDistribution model name ⟨mean, stddev⟩)
  | duplicate {model : String} {p : ParameterDecl} (named : isBlankText p.name = false)
      (sound : p.spec.Sound) (twice : p.name ∈ (parametersOf l model).map (·.name)) :
      Offends l (.ofParameter model p) (.duplicateParameter model p.name)
  | owner {model : String} {p : ParameterDecl} (named : isBlankText p.name = false)
      (sound : p.spec.Sound) (fresh : p.name ∉ (parametersOf l model).map (·.name))
      (blank : isBlankText model = true) : Offends l (.ofParameter model p) .blankModel

def Clean (l : List Item) : Prop :=
  ∀ before item later, l = before ++ item :: later → ∀ fault, ¬ item.Offends before fault

/-- The fault is that of the first declaration that offends after those before it. -/
def FirstFault (l : List Item) (fault : Domain.Fault) : Prop :=
  ∃ before item later, l = before ++ item :: later ∧ Clean before ∧ item.Offends before fault

theorem clean_concat {l : List Item} {i : Item} :
    Clean (l ++ [i]) ↔ Clean l ∧ ∀ fault, ¬ i.Offends l fault := by
  constructor
  · intro clean
    refine ⟨fun before item later split => ?_, clean l i [] rfl⟩
    exact clean before item (later ++ [i]) (by rw [split, List.append_assoc, List.cons_append])
  · rintro ⟨clean, last⟩ before item later split
    rcases List.eq_nil_or_concat later with rfl | ⟨front, j, rfl⟩
    · obtain ⟨rfl, same⟩ := List.append_inj' split rfl
      obtain rfl := (List.cons.inj same).1
      exact last
    · refine clean before item front ?_
      rw [List.concat_eq_append, ← List.cons_append, ← List.append_assoc] at split
      exact (List.append_inj' split rfl).1

structure Built (l : List Item) (d : Domain) : Prop where
  models : d.models.names = (l.map owner).eraseDups
  parameters : ∀ model, ((d.parameters? model).getD .empty).entries =
    (parametersOf l model).map fun p => (p.name, p.spec.expanded)

section Step

variable {l : List Item} {d e : Domain} {fault : Domain.Fault}

theorem Built.contains_iff (built : Built l d) {model name : String} :
    ((d.parameters? model).getD .empty).contains name = true ↔
      name ∈ (parametersOf l model).map (·.name) := by
  rw [Table.contains_iff, Table.names, built.parameters model, List.map_map]
  rfl

theorem declareParameter_of_ranged {model : String} {p : ParameterDecl} (ranged : p.spec.Ranged) :
    Config.declareParameter model d p = d.addParameter model p.name p.spec.expanded := by
  rw [Config.declareParameter, ParameterSpec.toKind_of_ranged ranged]
  rfl

theorem declare_linear_of_empty {model name : String} {min max step : Int64}
    (empty : ¬ (0 < step ∧ min ≤ max)) :
    declare d (.ofParameter model ⟨name, .linear min max step⟩) =
      .error (.emptyLinear min max step) := by
  rw [declare, Config.declareParameter, ParameterSpec.toKind, ParameterKind.linear_eq, if_neg empty]
  rfl

theorem declare_exponential_of_empty {model name : String} {min max : Nat}
    (empty : ¬ (min ≤ max ∧ max ≤ 62)) :
    declare d (.ofParameter model ⟨name, .exponential min max⟩) =
      .error (.emptyExponential min max) := by
  rw [declare, Config.declareParameter, ParameterSpec.toKind, ParameterKind.exponential_eq,
    if_neg empty]
  rfl

/-- A range without candidates is a fault, whatever was declared before. -/
theorem fault_of_not_ranged {model : String} {p : ParameterDecl} (empty : ¬ p.spec.Ranged) :
    ∃ fault, (∀ l, Offends l (.ofParameter model p) fault) ∧
      ∀ d, declare d (.ofParameter model p) = .error fault := by
  obtain ⟨name, spec⟩ := p
  cases spec with
  | fixed | categorical | distribution => exact absurd trivial empty
  | linear => exact ⟨_, fun _ => .linear empty, fun _ => declare_linear_of_empty empty⟩
  | exponential =>
    exact ⟨_, fun _ => .exponential empty, fun _ => declare_exponential_of_empty empty⟩

theorem offends_of_checkKind {model : String} {p : ParameterDecl} (ranged : p.spec.Ranged)
    (named : isBlankText p.name = false)
    (unchecked : Domain.checkKind model p.name p.spec.expanded = .error fault) :
    Offends l (.ofParameter model p) fault := by
  obtain ⟨name, spec⟩ := p
  cases spec with
  | fixed value => cases unchecked
  | categorical values =>
    obtain ⟨empty, rfl⟩ | ⟨c, same, -⟩ := Domain.checkKind_eq_error_iff.mp unchecked
    · obtain rfl := ParameterKind.categorical.inj empty
      exact .categorical named
    · cases same
  | linear | exponential =>
    -- a range that lists something passes the check of its candidates
    rw [Domain.Declaration.checkKind_of_valid
      ((ParameterSpec.expanded_valid_iff ranged).mpr ranged)] at unchecked
    cases unchecked
  | distribution mean stddev =>
    obtain ⟨same, -⟩ | ⟨c, same, unsound, rfl⟩ := Domain.checkKind_eq_error_iff.mp unchecked
    · cases same
    · obtain rfl := ParameterKind.distribution.inj same
      refine .distribution named fun sound => ?_
      rw [Distribution.isSound_iff.mpr sound] at unsound
      cases unsound

theorem declare_of_offends (built : Built l d) {i : Item} (offends : i.Offends l fault) :
    i.declare d = .error fault := by
  cases offends with
  | model blank => exact Domain.addModel_eq_error_iff.mpr ⟨blank, rfl⟩
  | linear empty => exact declare_linear_of_empty empty
  | exponential empty => exact declare_exponential_of_empty empty
  | name ranged blank =>
    exact (declareParameter_of_ranged ranged).trans
      (Domain.addParameter_eq_error_iff.mpr (.inl ⟨blank, rfl⟩))
  | categorical named =>
    exact Domain.addParameter_eq_error_iff.mpr
      (.inr ⟨named, .inl (Domain.checkKind_eq_error_iff.mpr (.inl ⟨rfl, rfl⟩))⟩)
  | @distribution model name mean stddev named unsound =>
    have checked : (Distribution.mk mean stddev).isSound = false :=
      Bool.eq_false_iff.mpr fun sound => unsound (Distribution.isSound_iff.mp sound)
    exact Domain.addParameter_eq_error_iff.mpr
      (.inr ⟨named, .inl (Domain.checkKind_eq_error_iff.mpr (.inr ⟨_, rfl, checked, rfl⟩))⟩)
  | duplicate named sound twice =>
    refine (declareParameter_of_ranged sound.ranged).trans
      (Domain.addParameter_eq_error_iff.mpr (.inr ⟨named, .inr ⟨?_, .inl ⟨?_, rfl⟩⟩⟩))
    · exact (ParameterSpec.expanded_valid_iff sound.ranged).mpr sound
    · exact built.contains_iff.mpr twice
  | owner named sound fresh blank =>
    refine (declareParameter_of_ranged sound.ranged).trans
      (Domain.addParameter_eq_error_iff.mpr (.inr ⟨named, .inr ⟨?_, .inr ⟨?_, blank, rfl⟩⟩⟩))
    · exact (ParameterSpec.expanded_valid_iff sound.ranged).mpr sound
    · exact Bool.eq_false_iff.mpr fun known => fresh (built.contains_iff.mp known)

theorem offends_of_declare (built : Built l d) {i : Item} (h : i.declare d = .error fault) :
    i.Offends l fault := by
  cases i with
  | ofModel name =>
    obtain ⟨blank, rfl⟩ := Domain.addModel_eq_error_iff.mp h
    exact .model blank
  | ofParameter model p =>
    by_cases ranged : p.spec.Ranged
    · rw [declare, declareParameter_of_ranged ranged] at h
      obtain ⟨blank, rfl⟩ | ⟨named, unchecked | ⟨valid, rest⟩⟩ :=
        Domain.addParameter_eq_error_iff.mp h
      · exact .name ranged blank
      · exact offends_of_checkKind ranged named unchecked
      · have sound : p.spec.Sound := (ParameterSpec.expanded_valid_iff ranged).mp valid
        obtain ⟨known, rfl⟩ | ⟨unknown, blank, rfl⟩ := rest
        · exact .duplicate named sound (built.contains_iff.mp known)
        · refine .owner named sound (fun known => ?_) blank
          rw [built.contains_iff.mpr known] at unknown
          cases unknown
    · obtain ⟨other, offends, failed⟩ := fault_of_not_ranged ranged
      obtain rfl := Except.error.inj ((failed d).symm.trans h)
      exact offends l

theorem eraseDups_concat (l : List String) (a : String) :
    (l ++ [a]).eraseDups = if a ∈ l then l.eraseDups else l.eraseDups ++ [a] := by
  rw [List.eraseDups_append]
  split <;> simp_all [List.removeAll, List.eraseDups_cons]

theorem Built.names_concat (built : Built l d) {i : Item}
    (names : e.models.names =
      if i.owner ∈ d.models.names then d.models.names else d.models.names ++ [i.owner]) :
    e.models.names = ((l ++ [i]).map owner).eraseDups := by
  rw [names, List.map_append, List.map_singleton, eraseDups_concat, built.models]
  simp only [List.mem_eraseDups]

theorem ranged_of_declare {model : String} {p : ParameterDecl}
    (h : declare d (.ofParameter model p) = .ok e) : p.spec.Ranged := by
  by_contra empty
  obtain ⟨fault, -, failed⟩ := fault_of_not_ranged empty
  cases (failed d).symm.trans h

theorem parametersOf_concat_ofModel (l : List Item) (name model : String) :
    parametersOf (l ++ [.ofModel name]) model = parametersOf l model := by
  simp [parametersOf, parameterOf?]

theorem parametersOf_concat_ofParameter (l : List Item) (owner : String) (p : ParameterDecl)
    (model : String) : parametersOf (l ++ [.ofParameter owner p]) model =
      if owner = model then parametersOf l model ++ [p] else parametersOf l model := by
  by_cases same : owner = model <;> simp [parametersOf, parameterOf?, same]

/-- A declaration that is made keeps the domain that of the declarations so far. -/
theorem Built.concat (built : Built l d) {i : Item} (h : i.declare d = .ok e) :
    Built (l ++ [i]) e := by
  cases i with
  | ofModel name =>
    obtain rfl := Except.ok.inj
      ((Domain.Declaration.made_ofModel (Domain.addModel_eq_ok h).1).symm.trans h)
    by_cases there : name ∈ d.models.names
    · rw [Domain.Declaration.entered_of_mem there]
      refine ⟨built.names_concat (if_pos there).symm, fun model => ?_⟩
      rw [parametersOf_concat_ofModel, built.parameters model]
    · have unknown : ¬ d.models.contains name = true := fun known =>
        there (Table.contains_iff.mp known)
      rw [Domain.entered, if_neg unknown]
      refine ⟨built.names_concat (Table.names_insert _ _ _), fun model => ?_⟩
      rw [parametersOf_concat_ofModel, ← built.parameters model, Domain.parameters?,
        Table.find?_insert]
      by_cases same : name = model
      · have absent : d.parameters? name = none := Entries.find?_eq_none_iff.mpr there
        rw [if_pos same, ← same, absent]
        rfl
      · rw [if_neg same]
        rfl
  | ofParameter model p =>
    have ranged : p.spec.Ranged := ranged_of_declare h
    rw [declare, declareParameter_of_ranged ranged] at h
    obtain ⟨-, -, unknown, -, rfl⟩ := Domain.addParameter_eq_ok h
    have fresh : p.name ∉ ((d.parameters? model).getD .empty).names := fun known => by
      rw [Table.contains_iff.mpr known] at unknown
      cases unknown
    refine ⟨built.names_concat (Table.names_insert _ _ _), fun other => ?_⟩
    rw [parametersOf_concat_ofParameter, Domain.parameters?, Table.find?_insert]
    by_cases same : model = other
    · subst same
      rw [if_pos rfl, if_pos rfl, Option.getD_some, Table.insert_of_fresh fresh,
        built.parameters model, List.map_append, List.map_singleton]
    · rw [if_neg same, if_neg same]
      exact built.parameters other

end Step

theorem built_nil : Built [] .empty := ⟨rfl, fun _ => rfl⟩

theorem clean_nil : Clean [] := by
  intro before item later split
  cases before <;> cases split

theorem FirstFault.append {l : List Item} {fault : Domain.Fault} (h : FirstFault l fault)
    (m : List Item) : FirstFault (l ++ m) fault := by
  obtain ⟨before, item, later, rfl, clean, offends⟩ := h
  exact ⟨before, item, later ++ m, by rw [List.append_assoc, List.cons_append], clean, offends⟩

def declareList (l : List Item) : Except Domain.Fault Domain := l.foldlM declare .empty

theorem declareList_concat (l : List Item) (i : Item) :
    declareList (l ++ [i]) = declareList l >>= fun d => i.declare d := by
  rw [declareList, List.foldlM_append]
  simp only [List.foldlM_cons, List.foldlM_nil, bind_pure]
  rfl

theorem declareList_cases (l : List Item) :
    (∃ d, declareList l = .ok d ∧ Clean l ∧ Built l d) ∨
      ∃ fault, declareList l = .error fault ∧ FirstFault l fault := by
  -- from the end of the list: whether a declaration offends depends on all those before it
  induction l using List.reverseRecOn with
  | nil => exact .inl ⟨.empty, rfl, clean_nil, built_nil⟩
  | append_singleton l i ih =>
    rw [declareList_concat]
    obtain ⟨d, made, clean, built⟩ | ⟨fault, failed, first⟩ := ih
    · rw [made]
      cases last : i.declare d with
      | ok e =>
        have inoffensive (fault : Domain.Fault) : ¬ i.Offends l fault := fun offends => by
          cases last.symm.trans (declare_of_offends built offends)
        exact .inl ⟨e, last, clean_concat.mpr ⟨clean, inoffensive⟩, built.concat last⟩
      | error fault =>
        exact .inr ⟨fault, last, l, i, [], rfl, clean, offends_of_declare built last⟩
    · rw [failed]
      exact .inr ⟨fault, rfl, first.append [i]⟩

theorem Clean.built {l : List Item} (clean : Clean l) : ∃ d, declareList l = .ok d ∧ Built l d := by
  obtain ⟨d, made, -, built⟩ | ⟨fault, -, before, item, later, split, -, offends⟩ :=
    declareList_cases l
  · exact ⟨d, made, built⟩
  · exact absurd offends (clean before item later split fault)

theorem FirstFault.declareList {l : List Item} {fault : Domain.Fault} (h : FirstFault l fault) :
    declareList l = .error fault := by
  obtain ⟨before, item, later, rfl, clean, offends⟩ := h
  obtain ⟨d, made, built⟩ := clean.built
  have failed : item.declare d = .error fault := declare_of_offends built offends
  rw [Item.declareList, List.foldlM_append, ← Item.declareList, made]
  simp [failed, bind, Except.bind]

end Item

end SweepFile

end GridSweep
