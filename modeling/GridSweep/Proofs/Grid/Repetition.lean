import GridSweep.Proofs.Grid.Counting
import GridSweep.Proofs.Grid.Turning
import GridSweep.Proofs.Results.Covering

namespace GridSweep

def Objective.point (o : Objective) : String × String := (o.model, o.gridKey)

theorem ResultSet.contains_iff_mem {s : ResultSet} {o : Objective} :
    s.contains o.model o = true ↔ o.point ∈ s.records.map RunRecord.point := by
  simp [contains_iff, Objective.point, RunRecord.point]

/-- Whether images repeat depends only on which of them are equal. -/
theorem nodup_map_congr {α β γ : Type} {f : α → β} {g : α → γ} {l : List α}
    (alike : ∀ a ∈ l, ∀ b ∈ l, f a = f b ↔ g a = g b) : (l.map f).Nodup ↔ (l.map g).Nodup := by
  rw [List.Nodup, List.Nodup, List.pairwise_map, List.pairwise_map]
  exact List.Pairwise.iff_of_mem fun ha hb => not_congr (alike _ ha _ hb)

namespace Plane

/-- Each combination has the axes for its names. -/
theorem keys_combination {axes : List Axis} {values : List (String × Json)}
    (h : values ∈ combinations axes) : values.map Prod.fst = axes.map Prod.fst := by
  induction axes generalizing values with
  | nil =>
    obtain rfl := List.mem_singleton.mp h
    rfl
  | cons axis rest ih =>
    obtain ⟨value, _, chosen⟩ := List.mem_flatMap.mp h
    obtain ⟨later, hl, rfl⟩ := List.mem_map.mp chosen
    rw [List.map_cons, List.map_cons, ih hl]

/-- No image of a combination comes twice just when no axis has two candidates with one image. -/
theorem nodup_map_combinations {β : Type} (f : Json → β) {axes : List Axis}
    (inhabited : Inhabited axes) :
    ((combinations axes).map (Entries.mapValues f)).Nodup ↔
      ∀ axis ∈ axes, (axis.2.map f).Nodup := by
  induction axes with
  | nil => simp [combinations]
  | cons axis rest ih =>
    have inhabited' : Inhabited rest := fun a ha => inhabited a (List.mem_cons_of_mem _ ha)
    have split : (combinations (axis :: rest)).map (Entries.mapValues f) =
        (axis.2.map f).flatMap fun image =>
          ((combinations rest).map (Entries.mapValues f)).map ((axis.1, image) :: ·) := by
      rw [combinations, List.map_flatMap, List.flatMap_map]
      refine congrArg (axis.2.flatMap ·) (funext fun value => ?_)
      rw [List.map_map, List.map_map]
      rfl
    rw [split, List.nodup_flatMap, List.forall_mem_cons, ← ih inhabited']
    -- From here on the rows of the later axes count only as a list that is not empty.
    obtain ⟨image, hi⟩ : ∃ image, image ∈ axis.2.map f := by
      apply List.exists_mem_of_length_pos
      rw [List.length_map]
      exact inhabited axis List.mem_cons_self
    obtain ⟨row, hr⟩ : ∃ row, row ∈ (combinations rest).map (Entries.mapValues f) := by
      apply List.exists_mem_of_length_pos
      rw [List.length_map, length_combinations]
      exact volume_pos inhabited'
    generalize (combinations rest).map (Entries.mapValues f) = rows at hr ⊢
    have own (image : β) : (rows.map ((axis.1, image) :: ·)).Nodup ↔ rows.Nodup :=
      List.nodup_map_iff fun _ _ same => (List.cons.inj same).2
    have apart (v w : β) : List.Disjoint (rows.map ((axis.1, v) :: ·))
        (rows.map ((axis.1, w) :: ·)) ↔ v ≠ w := by
      constructor
      · rintro disjoint rfl
        exact disjoint (List.mem_map_of_mem hr) (List.mem_map_of_mem hr)
      · intro differ values hv hw
        obtain ⟨_, _, rfl⟩ := List.mem_map.mp hv
        obtain ⟨_, _, same⟩ := List.mem_map.mp hw
        exact differ (Prod.mk.inj (List.cons.inj same).1).2.symm
    constructor
    · rintro ⟨each, pairs⟩
      exact ⟨pairs.imp fun disjoint => (apart _ _).mp disjoint, (own image).mp (each image hi)⟩
    · rintro ⟨distinct, later⟩
      exact ⟨fun image _ => (own image).mpr later,
        distinct.imp fun differ => (apart _ _).mpr differ⟩

theorem gridKey_objectiveAt {p : Plane} (named : (p.axes.map Prod.fst).Nodup)
    {values others : List (String × Json)} (hv : values ∈ combinations p.axes)
    (ho : others ∈ combinations p.axes) :
    (p.objectiveAt values).gridKey = (p.objectiveAt others).gridKey ↔
      Entries.mapValues Json.canonical values = Entries.mapValues Json.canonical others := by
  have answers {values : List (String × Json)} (h : values ∈ combinations p.axes) (name : String) :
      ((p.objectiveAt values).value? name).map Json.canonical =
        Entries.find? name (Entries.mapValues Json.canonical values) := by
    have entries : (p.objectiveAt values).values.entries = values :=
      Table.entries_ofList (keys_combination h ▸ named)
    rw [Objective.value?, Table.find?, entries, Entries.find?_mapValues]
  rw [Objective.gridKey_inj]
  constructor
  · rintro ⟨-, texts⟩
    refine Entries.eq_of_find? ?_ ?_ fun name => ?_
    · rw [Entries.keys_mapValues, Entries.keys_mapValues, keys_combination hv, keys_combination ho]
    · rw [Entries.keys_mapValues, keys_combination hv]
      exact named
    · rw [← answers hv, ← answers ho]
      exact texts name
  · intro same
    refine ⟨rfl, fun name => ?_⟩
    rw [answers hv, answers ho, same]

theorem nodup_keys {p : Plane} (inhabited : Inhabited p.axes)
    (named : (p.axes.map Prod.fst).Nodup) :
    (p.objectives.map Objective.gridKey).Nodup ↔
      ∀ axis ∈ p.axes, (axis.2.map Json.canonical).Nodup := by
  rw [← nodup_map_combinations Json.canonical inhabited, objectives, List.map_map]
  exact nodup_map_congr fun values hv others ho => gridKey_objectiveAt named hv ho

theorem nodup_keys_ofParameters (model : String) {p : Parameters} (valid : ∀ e ∈ p.entries, e.2.Valid) :
    ((ofParameters model p).objectives.map Objective.gridKey).Nodup ↔
      ∀ e ∈ p.entries, e.2.texts.Nodup := by
  rw [nodup_keys (inhabited_axes model valid) (keys_axes_nodup model p), axes_ofParameters,
    List.forall_mem_map]
  constructor
  · intro each e he
    cases grid : e.2.isGrid with
    | true => exact each e (List.mem_filter.mpr ⟨he, grid⟩)
    | false =>
      rw [ParameterKind.texts, ParameterKind.candidates_of_not_grid grid]
      exact List.nodup_nil
  · intro each e he
    exact each e (isGrid_of_mem_grid he).1

end Plane

/-- The two objectives have on every list of candidates of these parameters values with one text. -/
def Parameters.ChosenAlike (p : Parameters) (a b : Objective) : Prop :=
  ∀ name values, p.find? name = some (.categorical values) →
    ∃ x ∈ values, ∃ y ∈ values,
      a.value? name = some x ∧ b.value? name = some y ∧ x.canonical = y.canonical

namespace Objective.IsNumbered

variable {a b : Objective} {model : String} {p : Parameters} {i j : Nat}

/-- An objective has a value for each grid parameter, one of its candidates. -/
theorem exists_value (ha : a.IsNumbered model p i) (valid : ∀ e ∈ p.entries, e.2.Valid)
    {name : String} {kind : ParameterKind} (h : Entries.find? name p.grid = some kind) :
    ∃ x ∈ kind.candidates, a.value? name = some x := by
  obtain ⟨listed, grid⟩ := Plane.isGrid_of_mem_grid (Entries.mem_of_find? h)
  have inside : i / Parameters.stride name p.grid % kind.cardinality < kind.candidates.length := by
    rw [ParameterKind.length_candidates grid]
    exact Nat.mod_lt _ (valid _ listed).cardinality_pos
  refine ⟨_, List.getElem_mem inside, ?_⟩
  rw [value?, Table.find?, Parameters.find?_point? ha.values, h, Option.bind_some,
    List.getElem?_eq_getElem inside]

theorem value_eq_none (ha : a.IsNumbered model p i) {name : String}
    (h : Entries.find? name p.grid = none) : a.value? name = none := by
  rw [value?, Table.find?, Parameters.find?_point? ha.values, h]
  rfl

/-- Among the objectives of one model the key tells the candidates on the lists, and nothing else: a
fixed value is the same everywhere. -/
theorem gridKey_eq_iff (ha : a.IsNumbered model p i) (hb : b.IsNumbered model p j)
    (valid : ∀ e ∈ p.entries, e.2.Valid) : a.gridKey = b.gridKey ↔ p.ChosenAlike a b := by
  rw [gridKey_inj, and_iff_right (ha.model.trans hb.model.symm)]
  constructor
  · intro texts name values h
    have grid : Entries.find? name p.grid = some (.categorical values) := by
      rw [Parameters.find?_grid, h]
      rfl
    obtain ⟨x, hx, shown⟩ := ha.exists_value valid grid
    obtain ⟨y, hy, shown'⟩ := hb.exists_value valid grid
    have same := texts name
    rw [shown, shown'] at same
    exact ⟨x, hx, y, hy, shown, shown', Option.some.inj same⟩
  · intro alike name
    cases grid : Entries.find? name p.grid with
    | none => rw [ha.value_eq_none grid, hb.value_eq_none grid]
    | some kind =>
      cases kind with
      | fixed value =>
        obtain ⟨x, hx, shown⟩ := ha.exists_value valid grid
        obtain ⟨y, hy, shown'⟩ := hb.exists_value valid grid
        rw [shown, shown', List.mem_singleton.mp hx, List.mem_singleton.mp hy]
      | categorical values =>
        have h : p.find? name = some (.categorical values) := by
          rw [Parameters.find?_grid] at grid
          exact (Option.filter_eq_some_iff.mp grid).1
        obtain ⟨x, -, y, -, shown, shown', same⟩ := alike name values h
        rw [shown, shown', Option.map_some, Option.map_some, same]
      | distribution d => cases (Plane.isGrid_of_mem_grid (Entries.mem_of_find? grid)).2

end Objective.IsNumbered

namespace Domain

def Unrepeated (d : Domain) : Prop :=
  ∀ m ∈ d.models.entries, ∀ p ∈ m.2.entries, p.2.candidates.Nodup

def HeldCandidates (d : Domain) : Prop :=
  ∀ m ∈ d.models.entries, ∀ p ∈ m.2.entries, ∀ j ∈ p.2.candidates, j.Held

variable {d : Domain}

theorem Declared.heldValues (declared : d.Declared) (held : d.HeldCandidates)
    {item : String × Objective} (h : item ∈ d.named) : item.2.HeldValues := by
  obtain ⟨m, hm, values, _⟩ := declared.mem_named h
  intro e he
  obtain ⟨p, hp, candidate⟩ := values e he
  exact held m hm p hp e.2 candidate

theorem nodup_keys_iff (declared : d.Declared) :
    (d.objectives.map Objective.gridKey).Nodup ↔
      ∀ m ∈ d.models.entries, ∀ p ∈ m.2.entries, p.2.texts.Nodup := by
  -- Keys of different models differ in the model.
  have apart : d.models.entries.Pairwise fun m n =>
      List.Disjoint ((Plane.ofParameters m.1 m.2).objectives.map Objective.gridKey)
        ((Plane.ofParameters n.1 n.2).objectives.map Objective.gridKey) := by
    refine (List.pairwise_map.mp d.models.distinct).imp fun {m n} differ key hm hn => ?_
    obtain ⟨o, ho, rfl⟩ := List.mem_map.mp hm
    obtain ⟨o', ho', same⟩ := List.mem_map.mp hn
    obtain ⟨_, _, rfl⟩ := List.mem_map.mp ho
    obtain ⟨_, _, rfl⟩ := List.mem_map.mp ho'
    exact differ (Objective.gridKey_inj.mp same).1.symm
  rw [objectives, List.map_flatMap, planes, List.flatMap_map, List.nodup_flatMap,
    and_iff_left apart]
  exact forall₂_congr fun m hm => Plane.nodup_keys_ofParameters m.1 (declared.valid m hm)

theorem nodup_points_iff (declared : d.Declared) (held : d.HeldCandidates) :
    (d.objectives.map Objective.point).Nodup ↔ d.Unrepeated := by
  have keys : (d.objectives.map Objective.point).Nodup ↔
      (d.objectives.map Objective.gridKey).Nodup := by
    refine nodup_map_congr fun a _ b _ => ?_
    rw [Objective.point, Objective.point, Prod.mk.injEq]
    exact and_iff_right_of_imp fun same => (Objective.gridKey_inj.mp same).1
  rw [keys, nodup_keys_iff declared]
  refine forall₂_congr fun m hm => forall₂_congr fun p hp => ?_
  have told : p.2.texts.Nodup ↔ (p.2.candidates.map id).Nodup := by
    refine nodup_map_congr fun x hx y hy => ?_
    rw [Json.canonical_inj, (held m hm p hp x hx).normal, (held m hm p hp y hy).normal, id, id]
  rwa [List.map_id] at told

def objective? (d : Domain) (n : Nat) : Option Objective :=
  ((Cursor.ofDomain d).drop n).next?.map Prod.fst

theorem objective?_eq (declared : d.Declared) (n : Nat) : d.objective? n = d.objectives[n]? := by
  have inhabited : ∀ p ∈ d.planes, Plane.Inhabited p.axes :=
    List.forall_mem_map.mpr fun m hm => Plane.inhabited_axes m.1 (declared.valid m hm)
  have sound : (Cursor.ofDomain d).Sound := Cursor.sound_fresh inhabited d.count
  rw [objective?, Cursor.next?_drop sound, Cursor.ofDomain, Cursor.coming_fresh inhabited, objectives]

theorem Declared.isNumbered (declared : d.Declared) {n : Nat} {o : Objective}
    (h : d.objective? n = some o) :
    ∃ p k, d.parameters? o.model = some p ∧ o.IsNumbered o.model p k := by
  rw [objective?_eq declared] at h
  obtain ⟨plane, hp, listed⟩ := List.mem_flatMap.mp (List.mem_of_getElem? h)
  obtain ⟨⟨model, p⟩, hm, rfl⟩ := List.mem_map.mp hp
  obtain ⟨k, here⟩ := List.mem_iff_getElem?.mp listed
  have numbered := Plane.isNumbered_objective (Plane.inhabited_axes model (declared.valid _ hm)) here
  obtain rfl := numbered.model
  exact ⟨p, k, Entries.find?_of_mem d.models.distinct hm, numbered⟩

/-- No two answers of the cursor have one key just when no two in the list have. -/
theorem keys_apart_iff (declared : d.Declared) :
    (∀ i j a b, d.objective? i = some a → d.objective? j = some b → i ≠ j →
      a.gridKey ≠ b.gridKey) ↔ (d.objectives.map Objective.gridKey).Nodup := by
  constructor
  · intro apart
    rw [List.nodup_iff_getElem?_ne_getElem?]
    intro i j before inside same
    rw [List.length_map] at inside
    have first := List.getElem?_eq_getElem (Nat.lt_trans before inside)
    have second := List.getElem?_eq_getElem inside
    rw [List.getElem?_map, List.getElem?_map, first, second] at same
    exact apart i j _ _ ((objective?_eq declared i).trans first)
      ((objective?_eq declared j).trans second) (Nat.ne_of_lt before) (Option.some.inj same)
  · intro distinct i j a b ha hb differ same
    rw [objective?_eq declared] at ha hb
    have inside : i < (d.objectives.map Objective.gridKey).length := by
      rw [List.length_map]
      exact (List.getElem?_eq_some_iff.mp ha).1
    refine differ ((List.getElem?_inj inside distinct).mp ?_)
    rw [List.getElem?_map, List.getElem?_map, ha, hb, Option.map_some, Option.map_some, same]

/-- Only a list of candidates can have a text twice. -/
theorem nodup_texts_iff :
    (∀ m ∈ d.models.entries, ∀ p ∈ m.2.entries, p.2.texts.Nodup) ↔
      ∀ model p name values, d.parameters? model = some p →
        p.find? name = some (.categorical values) → (values.map Json.canonical).Nodup := by
  constructor
  · intro each model p name values hp h
    exact each _ (mem_of_parameters? hp) _ (Entries.mem_of_find? h)
  · rintro lists ⟨model, p⟩ hm ⟨name, kind⟩ he
    cases kind with
    | fixed value => exact List.nodup_singleton _
    | categorical values =>
      exact lists model p name values (Entries.find?_of_mem d.models.distinct hm)
        (Entries.find?_of_mem p.distinct he)
    | distribution d => exact List.nodup_nil

/-- Two answers of the cursor have one key just when they are of one model and have values with one
text on each of its lists of candidates. So no key comes twice just when no list has a text twice. -/
theorem gridKey_repeats_iff (d : Domain) (declared : d.Declared) :
    (∀ i j a b, d.objective? i = some a → d.objective? j = some b →
      (a.gridKey = b.gridKey ↔
        a.model = b.model ∧ ∃ p, d.parameters? a.model = some p ∧ p.ChosenAlike a b)) ∧
    ((∀ i j a b, d.objective? i = some a → d.objective? j = some b → i ≠ j →
        a.gridKey ≠ b.gridKey) ↔
      ∀ model p name values, d.parameters? model = some p →
        p.find? name = some (.categorical values) → (values.map Json.canonical).Nodup) := by
  refine ⟨fun i j a b ha hb => ?_, ?_⟩
  · obtain ⟨p, k, hp, first⟩ := declared.isNumbered ha
    obtain ⟨q, l, hq, second⟩ := declared.isNumbered hb
    have own (models : a.model = b.model) : a.gridKey = b.gridKey ↔ p.ChosenAlike a b := by
      rw [← models] at hq second
      obtain rfl := Option.some.inj (hp.symm.trans hq)
      exact first.gridKey_eq_iff second (declared.valid _ (mem_of_parameters? hp))
    constructor
    · intro keys
      have models := (Objective.gridKey_inj.mp keys).1
      exact ⟨models, p, hp, (own models).mp keys⟩
    · rintro ⟨models, p', hp', alike⟩
      obtain rfl := Option.some.inj (hp.symm.trans hp')
      exact (own models).mpr alike
  · rw [keys_apart_iff declared, nodup_keys_iff declared, nodup_texts_iff]

/-- Candidates that differ in the order of their members only. -/
def turnedShapes : List Json :=
  [.obj [("a", .ofNat 1), ("b", .ofNat 2)], .obj [("b", .ofNat 2), ("a", .ofNat 1)]]

def turnedModel : Domain :=
  ⟨Table.empty.insert "m" (.ofList [("shape", .categorical turnedShapes)])⟩

theorem declared_turnedModel : turnedModel.Declared :=
  @Declared.addParameters .empty _ "m" [("shape", .categorical turnedShapes)] .empty rfl

/-- Both objectives of the one model have one key; those of the other domain have seven. -/
theorem gridKey_repeats_iff_turnedModel :
    turnedModel.Declared ∧
    (∃ a b, turnedModel.objective? 0 = some a ∧ turnedModel.objective? 1 = some b ∧
      a.value? "shape" ≠ b.value? "shape" ∧ a.gridKey = b.gridKey) ∧
    twoModels.Declared ∧
    (∀ i j a b, twoModels.objective? i = some a → twoModels.objective? j = some b → i ≠ j →
      a.gridKey ≠ b.gridKey) := by
  refine ⟨declared_turnedModel, ?_, declared_twoModels, ?_⟩
  · obtain ⟨keys, -⟩ := gridKey_repeats_iff turnedModel declared_turnedModel
    refine ⟨_, _, rfl, rfl, ?_, (keys 0 1 _ _ rfl rfl).mpr ⟨rfl, _, rfl, ?_⟩⟩
    · show some turnedShapes[0] ≠ some turnedShapes[1]
      simp [turnedShapes]
    · intro name values h
      have only : (name, ParameterKind.categorical values) = ("shape", .categorical turnedShapes) :=
        List.mem_singleton.mp (Entries.mem_of_find? h)
      obtain ⟨rfl, rfl⟩ : name = "shape" ∧ values = turnedShapes := by simpa using only
      exact ⟨_, List.mem_cons_self, _, List.mem_cons_of_mem _ List.mem_cons_self, rfl, rfl, rfl⟩
  · obtain ⟨-, apart⟩ := gridKey_repeats_iff twoModels declared_twoModels
    exact apart.mpr (nodup_texts_iff.mp (by decide))

end Domain

end GridSweep
