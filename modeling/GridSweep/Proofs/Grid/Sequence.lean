import Mathlib.Algebra.Group.Nat.Defs
import GridSweep.Proofs.Grid.Odometer

namespace GridSweep

namespace ParameterKind

def candidates : ParameterKind → List Json
  | fixed value => [value]
  | categorical values => values
  | distribution _ => []

theorem length_candidates {kind : ParameterKind} (grid : kind.isGrid = true) :
    kind.candidates.length = kind.cardinality := by
  cases kind with
  | fixed value => rfl
  | categorical values => rfl
  | distribution d => cases grid

theorem candidates_of_not_grid {kind : ParameterKind} (h : kind.isGrid = false) :
    kind.candidates = [] := by
  cases kind with
  | fixed value => cases h
  | categorical values => cases h
  | distribution d => rfl

theorem Valid.cardinality_pos {kind : ParameterKind} (valid : kind.Valid) : 0 < kind.cardinality := by
  cases kind with
  | fixed value => exact Nat.one_pos
  | categorical values => exact List.length_pos_iff.mpr valid
  | distribution d => exact Nat.one_pos

end ParameterKind

namespace Parameters

def grid (p : Parameters) : List (String × ParameterKind) := p.entries.filter (·.2.isGrid)

def product (l : List (String × ParameterKind)) : Nat := (l.map (·.2.cardinality)).prod

/-- The values that the `k`-th objective takes on these parameters: on each of them the candidate
with the index `k / (product of the later cardinalities) % cardinality`, if there is one. -/
def point? : List (String × ParameterKind) → Nat → Option (List (String × Json))
  | [], _ => some []
  | (name, kind) :: later, k =>
    match kind.candidates[k / product later % kind.cardinality]?, point? later k with
    | some value, some values => some ((name, value) :: values)
    | _, _ => none

end Parameters

/-- The objective is the one with number `k` of a model with these parameters. -/
structure Objective.IsNumbered (o : Objective) (model : String) (p : Parameters) (k : Nat) : Prop where
  model : o.model = model
  values : Parameters.point? p.grid k = some o.values.entries
  distributions : o.distributions.entries = p.entries.filterMap Plane.distribution?

namespace Plane

open Parameters

def axisOf (p : String × ParameterKind) : Axis := (p.1, p.2.candidates)

theorem axes_ofParameters (model : String) (p : Parameters) :
    (ofParameters model p).axes = p.grid.map axisOf := by
  unfold ofParameters grid
  induction p.entries with
  | nil => rfl
  | cons e rest ih =>
    obtain ⟨name, kind⟩ := e
    cases kind with
    | fixed value => exact congrArg ((name, [value]) :: ·) ih
    | categorical values => exact congrArg ((name, values) :: ·) ih
    | distribution d => exact ih

theorem volume_axes (l : List (String × ParameterKind)) (grid : ∀ p ∈ l, p.2.isGrid = true) :
    volume (l.map axisOf) = product l := by
  induction l with
  | nil => rfl
  | cons e rest ih =>
    have own := ParameterKind.length_candidates (grid e List.mem_cons_self)
    simp only [List.map_cons, volume, product, List.prod_cons, axisOf, own]
    rw [ih fun p hp => grid p (List.mem_cons_of_mem _ hp)]
    rfl

theorem isGrid_of_mem_grid {p : Parameters} {e : String × ParameterKind} (h : e ∈ p.grid) :
    e ∈ p.entries ∧ e.2.isGrid = true :=
  List.mem_filter.mp h

theorem inhabited_axes (model : String) {p : Parameters} (valid : ∀ e ∈ p.entries, e.2.Valid) :
    Inhabited (ofParameters model p).axes := by
  rw [axes_ofParameters]
  intro axis ha
  obtain ⟨e, he, rfl⟩ := List.mem_map.mp ha
  obtain ⟨declared, grid⟩ := isGrid_of_mem_grid he
  have positive := (valid e declared).cardinality_pos
  rwa [← ParameterKind.length_candidates grid] at positive

/-- What the axes show for a number is what the declarations say. -/
theorem point?_eq_chosen (l : List (String × ParameterKind)) (grid : ∀ p ∈ l, p.2.isGrid = true)
    (inhabited : Inhabited (l.map axisOf)) (k : Nat) :
    point? l k = some (Cursor.chosen (l.map axisOf) (digits (l.map axisOf) k)) := by
  induction l with
  | nil => rfl
  | cons e rest ih =>
    have grid' : ∀ p ∈ rest, p.2.isGrid = true := fun p hp => grid p (List.mem_cons_of_mem _ hp)
    have inhabited' : Inhabited (rest.map axisOf) := fun a ha =>
      inhabited a (List.mem_cons_of_mem _ ha)
    have own := ParameterKind.length_candidates (grid e List.mem_cons_self)
    have positive : 0 < e.2.candidates.length := inhabited (axisOf e) List.mem_cons_self
    have inside : k / product rest % e.2.cardinality < e.2.candidates.length := by
      rw [← own]
      exact Nat.mod_lt _ positive
    simp only [point?, List.map_cons, digits, Cursor.chosen, volume_axes rest grid', axisOf, own]
    rw [ih grid' inhabited', List.getElem?_eq_getElem inside, List.getD_eq_getElem?_getD,
      List.getElem?_eq_getElem inside]
    rfl

theorem keys_chosen {axes : List Axis} {odometer : List Nat} (h : InRange axes odometer) :
    (Cursor.chosen axes odometer).map Prod.fst = axes.map Prod.fst := by
  induction h with
  | nil => rfl
  | cons _ _ ih => simp only [Cursor.chosen, List.map_cons, ih]

theorem keys_axes_nodup (model : String) (p : Parameters) :
    ((ofParameters model p).axes.map Prod.fst).Nodup := by
  rw [axes_ofParameters, List.map_map]
  exact p.distinct.sublist (List.filter_sublist.map _)

theorem keys_filterMap_distribution? (l : List (String × ParameterKind)) :
    ((l.filterMap distribution?).map Prod.fst).Sublist (l.map Prod.fst) := by
  induction l with
  | nil => exact .slnil
  | cons e rest ih =>
    obtain ⟨name, kind⟩ := e
    cases kind with
    | distribution d => exact ih.cons_cons name
    | fixed value => exact ih.cons name
    | categorical values => exact ih.cons name

theorem isNumbered_objective {model : String} {p : Parameters} {k : Nat} {o : Objective}
    (inhabited : Inhabited (ofParameters model p).axes)
    (h : (ofParameters model p).objectives[k]? = some o) : o.IsNumbered model p k := by
  have grid : ∀ e ∈ p.grid, e.2.isGrid = true := fun e he => (isGrid_of_mem_grid he).2
  have below : k < volume (ofParameters model p).axes := by
    have inside := (List.getElem?_eq_some_iff.mp h).1
    rwa [objectives, List.length_map, length_combinations] at inside
  rw [objectives, List.getElem?_map, getElem?_combinations inhabited below] at h
  obtain rfl := Option.some.inj h
  have range := digits_inRange inhabited k
  have distinct : ((Cursor.chosen (ofParameters model p).axes
      (digits (ofParameters model p).axes k)).map Prod.fst).Nodup := by
    rw [keys_chosen range]
    exact keys_axes_nodup model p
  refine ⟨rfl, ?_, ?_⟩
  · rw [objectiveAt, Table.entries_ofList distinct]
    rw [axes_ofParameters] at inhabited ⊢
    exact point?_eq_chosen p.grid grid inhabited k
  · exact Table.entries_ofList (p.distinct.sublist (keys_filterMap_distribution? _))

theorem length_objectives (model : String) (p : Parameters) :
    (ofParameters model p).objectives.length = product p.grid := by
  rw [objectives, List.length_map, length_combinations, axes_ofParameters,
    volume_axes _ fun e he => (isGrid_of_mem_grid he).2]

end Plane

namespace Domain

/-- Every call for the next objective of a declared domain answers what the declarations say: the
models in order, each with as many objectives as its grid parameters have combinations, numbered as
an odometer counts. No digit leaves its axis, and after the last objective there is none for good. -/
theorem objectives_in_odometer_order (d : Domain) (declared : d.Declared) :
    (∀ n, ((Cursor.ofDomain d).drop n).next?.map Prod.fst =
      (d.models.entries.flatMap fun m => (Plane.ofParameters m.1 m.2).objectives)[n]?) ∧
    (∀ n, ((Cursor.ofDomain d).drop n).InRange) ∧
    ∀ m ∈ d.models.entries,
      (Plane.ofParameters m.1 m.2).objectives.length = (m.2.grid.map (·.2.cardinality)).prod ∧
      ∀ (k : Nat) (o : Objective), (Plane.ofParameters m.1 m.2).objectives[k]? = some o →
        o.IsNumbered m.1 m.2 k := by
  have inhabited : ∀ p ∈ d.planes, Plane.Inhabited p.axes := by
    intro p hp
    obtain ⟨m, hm, rfl⟩ := List.mem_map.mp hp
    exact Plane.inhabited_axes m.1 (declared.valid m hm)
  have sound : (Cursor.ofDomain d).Sound := Cursor.sound_fresh inhabited d.count
  have listed : (Cursor.ofDomain d).coming =
      d.models.entries.flatMap fun m => (Plane.ofParameters m.1 m.2).objectives := by
    rw [Cursor.ofDomain, Cursor.coming_fresh inhabited, planes, List.flatMap_map]
  refine ⟨fun n => ?_, fun n => (Cursor.coming_drop sound n).1.inRange, fun m hm => ⟨?_, ?_⟩⟩
  · rw [Cursor.next?_drop sound, listed]
  · exact Plane.length_objectives m.1 m.2
  · intro k o h
    exact Plane.isNumbered_objective (Plane.inhabited_axes m.1 (declared.valid m hm)) h

def mixedParameters : List (String × ParameterKind) :=
  [("size", .categorical [.ofNat 1, .ofNat 2]),
    ("length", .distribution ⟨.zero, .zero⟩),
    ("mode", .categorical [.str "x", .str "y", .str "z"])]

def twoModels : Domain := ⟨(Table.empty.insert "m" (.ofList mixedParameters)).insert "n" .empty⟩

theorem declared_twoModels : twoModels.Declared :=
  @Declared.addModel _ _ "n" (@Declared.addParameters .empty _ "m" mixedParameters .empty rfl) rfl

/-- Six objectives of the first model and one of the second, and none after them. -/
theorem objectives_in_odometer_order_twoModels :
    twoModels.Declared ∧
    (Plane.ofParameters "m" (.ofList mixedParameters)).objectives.length = 2 * (3 * 1) ∧
    (∀ o, (Plane.ofParameters "m" (.ofList mixedParameters)).objectives[4]? = some o →
      o.IsNumbered "m" (.ofList mixedParameters) 4) ∧
    (Plane.ofParameters "n" .empty).objectives.length = 1 ∧
    ((Cursor.ofDomain twoModels).drop 7).next?.map Prod.fst = none := by
  obtain ⟨answers, -, numbered⟩ := objectives_in_odometer_order twoModels declared_twoModels
  have first := numbered ("m", .ofList mixedParameters) List.mem_cons_self
  have second := numbered ("n", .empty) (List.mem_cons_of_mem _ List.mem_cons_self)
  exact ⟨declared_twoModels, first.1, first.2 4, second.1, answers 7⟩

end Domain

end GridSweep
