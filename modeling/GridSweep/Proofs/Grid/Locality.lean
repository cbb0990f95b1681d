import GridSweep.Proofs.Grid.Counting
import GridSweep.Proofs.Grid.Named

namespace GridSweep

namespace Plane

def runs (p : Plane) : List (String × String) :=
  (Domain.namedOf p).map fun run => (run.1, run.2.gridKey)

theorem names_runs (p : Plane) :
    p.runs.map Prod.fst = (List.range p.objectives.length).map (runName p.model) := by
  rw [runs, List.map_map]
  exact Domain.names_namedOf p

theorem runs_congr {p q : Plane} (model : p.model = q.model) (axes : p.axes = q.axes) :
    p.runs = q.runs := by
  obtain ⟨m, l, distributions⟩ := p
  obtain ⟨_, _, others⟩ := q
  obtain rfl : m = _ := model
  obtain rfl : l = _ := axes
  refine List.ext_getElem? fun k => ?_
  simp only [runs, Domain.namedOf, objectives, List.getElem?_map, List.getElem?_mapIdx,
    Option.map_map]
  rfl

end Plane

namespace Domain

variable {d e : Domain} {model : String} {p q : Parameters}

/-- The names of the runs of a model, in the order of the domain, with the keys of their points. -/
def runsOf (d : Domain) (model : String) : List (String × String) :=
  (d.named.filter (·.2.model = model)).map fun run => (run.1, run.2.gridKey)

theorem runsOf_eq (declared : d.parameters? model = some p) :
    d.runsOf model = (Plane.ofParameters model p).runs := by
  have pieces := Entries.filter_flatMap
    (f := fun m : String × Parameters => namedOf (.ofParameters m.1 m.2))
    (fun m run named => model_of_mem_namedOf named) d.models.entries model
  have own := Entries.filter_eq_find? d.models.distinct model
  rw [show Entries.find? model d.models.entries = some p from declared] at own
  rw [runsOf, named, planes, List.flatMap_map, pieces, own]
  exact congrArg (List.map _) (List.flatMap_singleton _ _)

/-- The runs of a model depend on its grid parameters alone. -/
theorem runsOf_congr (hp : d.parameters? model = some p) (hq : e.parameters? model = some q)
    (grid : q.grid = p.grid) : e.runsOf model = d.runsOf model := by
  rw [runsOf_eq hp, runsOf_eq hq]
  refine Plane.runs_congr rfl ?_
  rw [Plane.axes_ofParameters, Plane.axes_ofParameters, grid]

theorem parameters?_addModel {other : String} (hp : d.parameters? model = some p)
    (made : d.addModel other = .ok e) : e.parameters? model = some p := by
  obtain ⟨-, rfl | ⟨unknown, rfl⟩⟩ := addModel_eq_ok made
  · exact hp
  · have apart : other ≠ model := fun same => by
      rw [same, hp] at unknown
      cases unknown
    exact (Table.find?_insert _ _ _ _).trans ((if_neg apart).trans hp)

theorem grid_addParameter {other parameter : String} {kind : ParameterKind}
    (hp : d.parameters? model = some p) (made : d.addParameter other parameter kind = .ok e)
    (elsewhere : other ≠ model ∨ kind.isGrid = false) :
    ∃ q, e.parameters? model = some q ∧ q.grid = p.grid := by
  obtain ⟨-, -, fresh, -, rfl⟩ := addParameter_eq_ok made
  rw [parameters?, Table.find?_insert]
  by_cases same : other = model
  · subst same
    rw [hp, Option.getD_some] at fresh ⊢
    have ungridded : kind.isGrid = false := elsewhere.resolve_left fun apart => apart rfl
    have new : parameter ∉ p.names := fun known => by
      rw [Table.contains_iff.mpr known] at fresh
      cases fresh
    refine ⟨_, if_pos rfl, ?_⟩
    rw [Parameters.grid, Table.insert_of_fresh new, List.filter_append, List.filter_singleton,
      ungridded]
    exact List.append_nil _
  · exact ⟨p, (if_neg same).trans hp, rfl⟩

/-- The number of a run is that of the objectives of its model before it. -/
theorem name_of_getElem? {planes : List Plane} (apart : (planes.map Plane.model).Nodup) {i : Nat}
    {run : String × Objective} (h : (planes.flatMap namedOf)[i]? = some run) :
    run.1 = runName run.2.model
      (((planes.flatMap Plane.objectives).take i).countP (·.model = run.2.model)) := by
  induction planes generalizing i with
  | nil => cases h
  | cons p rest ih =>
    obtain ⟨fresh, apart'⟩ := List.nodup_cons.mp apart
    have length := length_namedOf p
    rw [List.flatMap_cons] at h ⊢
    by_cases inside : i < p.objectives.length
    · -- All objectives so far are of this model.
      rw [List.getElem?_append_left (length ▸ inside), namedOf, List.getElem?_mapIdx] at h
      obtain ⟨o, listed, rfl⟩ := Option.map_eq_some_iff.mp h
      have model := model_of_mem_objectives (List.mem_of_getElem? listed)
      have counted : (p.objectives.take i).countP (·.model = o.model) = i := by
        have all : ∀ o' ∈ p.objectives.take i, decide (o'.model = o.model) = true := fun o' ho =>
          decide_eq_true ((model_of_mem_objectives (List.mem_of_mem_take ho)).trans model.symm)
        rw [List.countP_eq_length.mpr all, List.length_take, Nat.min_eq_left (Nat.le_of_lt inside)]
      rw [List.take_append_of_le_length (Nat.le_of_lt inside), counted, model]
    · -- None of the objectives of this model counts for a later one.
      have past : p.objectives.length ≤ i := Nat.le_of_not_lt inside
      rw [List.getElem?_append_right (length ▸ past), length] at h
      obtain ⟨q, hq, listed⟩ := List.mem_flatMap.mp (List.mem_of_getElem? h)
      have other : p.model ≠ run.2.model := fun same => fresh <| by
        rw [same, model_of_mem_namedOf listed]
        exact List.mem_map_of_mem hq
      have none : p.objectives.countP (·.model = run.2.model) = 0 := by
        refine List.countP_eq_zero.mpr fun o ho same => other ?_
        rw [← model_of_mem_objectives ho]
        exact of_decide_eq_true same
      rw [List.take_append, List.take_of_length_le past, List.countP_append, none, Nat.zero_add]
      exact ih apart' h

/-- The named objectives come as they are listed; splitting a name at the last mark recovers the model
and how many objectives of the model came before; no name comes twice; a model has the numbers from
zero to the number of its combinations, which its count tells as far as 64 bits reach; and its runs stay
what they are, whatever happens to other models, and when a distribution is declared. -/
theorem runs_recoverable_and_local (d : Domain) (declared : d.Declared) :
    (∀ i, ((NamedCursor.ofDomain d).drop i).next?.map Prod.fst = d.named[i]?) ∧
    (∀ i name o, d.named[i]? = some (name, o) → d.objectives[i]? = some o ∧
      splitTextLast? "_run_" name =
        some (o.model, toString ((d.objectives.take i).countP (·.model = o.model)))) ∧
    (d.named.map Prod.fst).Nodup ∧
    ∀ model p, d.parameters? model = some p →
      (d.runsOf model).map Prod.fst =
        (List.range (Parameters.product p.grid)).map (runName model) ∧
      d.countFor model = some (min (Parameters.product p.grid) (2 ^ 64 - 1)) ∧
      (∀ (e : Domain) q, e.parameters? model = some q → q.grid = p.grid → e.runsOf model = d.runsOf model) ∧
      (∀ other e, d.addModel other = .ok e → e.runsOf model = d.runsOf model) ∧
      ∀ other parameter kind e, d.addParameter other parameter kind = .ok e →
        other ≠ model ∨ kind.isGrid = false → e.runsOf model = d.runsOf model := by
  refine ⟨NamedCursor.next?_drop declared, fun i name o h => ⟨?_, ?_⟩, d.nodup_names,
    fun model p hp => ⟨?_, ?_, fun e q hq grid => runsOf_congr hp hq grid, fun other e made => ?_,
      fun other parameter kind e made elsewhere => ?_⟩⟩
  · rw [← objectives_named, List.getElem?_map, h]
    rfl
  · have apart : (d.planes.map Plane.model).Nodup := d.models_planes ▸ d.models.distinct
    rw [show name = _ from name_of_getElem? apart h]
    exact splitTextLast?_runName _ _
  · rw [runsOf_eq hp, Plane.names_runs, Plane.length_objectives]
    rfl
  · rw [countFor, hp]
    exact congrArg some p.count_eq
  · exact runsOf_congr hp (parameters?_addModel hp made) rfl
  · obtain ⟨q, hq, grid⟩ := grid_addParameter hp made elsewhere
    exact runsOf_congr hp hq grid

/-- A model whose name ends in a part of the mark, behind one whose name looks like the name of a run. -/
def overlapping : Domain :=
  ⟨(Table.empty.insert "m_run_1" (.ofList mixedParameters)).insert "m_run" .empty⟩

theorem declared_overlapping : overlapping.Declared :=
  @Declared.addModel _ _ "m_run"
    (@Declared.addParameters .empty _ "m_run_1" mixedParameters .empty rfl) rfl

def overlappingAndMore : Domain :=
  ⟨overlapping.models.insert "m" (.ofList [("load", .distribution ⟨.zero, .zero⟩)])⟩

theorem runs_recoverable_and_local_overlapping :
    overlapping.Declared ∧
    ((NamedCursor.ofDomain overlapping).drop 6).next?.map (·.1.1) = some "m_run_run_0" ∧
    splitTextLast? "_run_" "m_run_run_0" = some ("m_run", "0") ∧
    splitTextLast? "_run_" "m_run_1_run_4" = some ("m_run_1", "4") ∧
    (overlapping.runsOf "m_run_1").map Prod.fst = (List.range 6).map (runName "m_run_1") ∧
    overlapping.countFor "m_run_1" = some 6 ∧
    overlapping.addParameter "m" "load" (.distribution ⟨.zero, .zero⟩) = .ok overlappingAndMore ∧
    overlappingAndMore.runsOf "m_run_1" = overlapping.runsOf "m_run_1" := by
  obtain ⟨answers, recovered, -, models⟩ :=
    runs_recoverable_and_local overlapping declared_overlapping
  obtain ⟨names, count, -, -, kept⟩ := models "m_run_1" _ rfl
  refine ⟨declared_overlapping, ?_, (recovered 6 _ _ rfl).2, (recovered 4 _ _ rfl).2, names, count,
    rfl, kept "m" "load" (.distribution ⟨.zero, .zero⟩) _ rfl (.inl (by decide))⟩
  rw [← Function.comp_def Prod.fst Prod.fst, ← Option.map_map, answers 6]
  rfl

def sixteenDials : List (String × ParameterKind) :=
  "abcdefghijklmnop".toList.map fun c =>
    (String.singleton c, .categorical ((List.range 16).map .ofNat))

def fullDomain : Domain := ⟨Table.empty.insert "m" (.ofList sixteenDials)⟩

theorem declared_fullDomain : fullDomain.Declared :=
  @Declared.addParameters .empty _ "m" sixteenDials .empty rfl

theorem product_sixteenDials : Parameters.product (Parameters.grid (.ofList sixteenDials)) = 2 ^ 64 :=
  rfl

theorem runs_past_count :
    fullDomain.Declared ∧ fullDomain.countFor "m" = some (2 ^ 64 - 1) ∧
    (fullDomain.runsOf "m").map Prod.fst ≠ (List.range (2 ^ 64 - 1)).map (runName "m") := by
  have known : fullDomain.parameters? "m" = some (.ofList sixteenDials) := rfl
  refine ⟨declared_fullDomain, ?_, fun same => ?_⟩
  · rw [countFor, known, Option.map_some, Parameters.count_eq, product_sixteenDials]
    rfl
  · have lengths := congrArg List.length same
    rw [runsOf_eq known, Plane.names_runs, Plane.length_objectives, product_sixteenDials,
      List.length_map, List.length_map, List.length_range, List.length_range] at lengths
    exact absurd lengths (by decide)

end Domain

end GridSweep
