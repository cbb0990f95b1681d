import GridSweep.Proofs.Grid.Sequence
import GridSweep.Proofs.Number.Written
import GridSweep.Proofs.Text.Splitting
import Mathlib.Data.List.Nodup

/-!
The named objectives of a domain. A run name determines its model and number
(`splitTextLast?_runName`, `runName_inj`), so no name is given twice (`Domain.nodup_names`); the parts
of an objective come from the declarations (`Domain.mem_named`); the cursor that numbers the runs gives
the named objectives one after the other (`NamedCursor.next?_drop`).
-/
namespace GridSweep

theorem toString_inj {m n : Nat} (h : toString m = toString n) : m = n := by
  have same : Nat.toDigits 10 m = Nat.toDigits 10 n := by
    rw [← Nat.toList_repr, ← Nat.toList_repr]
    exact congrArg String.toList h
  rw [← Numeral.value_digitsOf m, ← Numeral.value_digitsOf n, Numeral.digitsOf, Numeral.digitsOf, same]

theorem not_underscore_of_toString {n : Nat} : '_' ∉ (toString n).toList := by
  intro h
  rw [show (toString n).toList = Nat.toDigits 10 n from Nat.toList_repr,
    ← Numeral.digitChars_digitsOf, Numeral.digitChars, List.mem_map] at h
  obtain ⟨d, hd, same⟩ := h
  have all : ∀ d < 10, Nat.digitChar d ≠ '_' := by decide
  exact all d (Numeral.allDigits_digitsOf n d hd) same

/-- Splitting at the last mark recovers the model, whatever it ends in, and the number. -/
theorem splitTextLast?_runName (model : String) (index : Nat) :
    splitTextLast? "_run_" (runName model index) = some (model, toString index) := by
  have shape : (runName model index).toList =
      model.toList ++ (['_', 'r', 'u', 'n'] ++ '_' :: (toString index).toList) := by
    rw [runName, String.toList_append, String.toList_append, List.append_assoc]
    rfl
  have split := splitLast?_append ['_', 'r', 'u', 'n'] model.toList
    (not_underscore_of_toString (n := index))
  rw [splitTextLast?, shape]
  refine (congrArg (Option.map _) split).trans ?_
  rw [Option.map_some, String.ofList_toList, String.ofList_toList]

theorem runName_inj {m n : String} {i j : Nat} (h : runName m i = runName n j) : m = n ∧ i = j := by
  have parts := congrArg (splitTextLast? "_run_") h
  rw [splitTextLast?_runName, splitTextLast?_runName] at parts
  obtain ⟨models, numbers⟩ := Prod.mk.inj (Option.some.inj parts)
  exact ⟨models, toString_inj numbers⟩

namespace Parameters

theorem mem_point? {l : List (String × ParameterKind)} {k : Nat} {values : List (String × Json)}
    (h : point? l k = some values) {e : String × Json} (he : e ∈ values) :
    ∃ p ∈ l, p.1 = e.1 ∧ e.2 ∈ p.2.candidates := by
  induction l generalizing values with
  | nil =>
    cases h
    cases he
  | cons p later ih =>
    unfold point? at h
    split at h
    · rename_i value rest chosen following
      cases h
      rcases List.mem_cons.mp he with rfl | he
      · exact ⟨p, List.mem_cons_self, rfl, List.mem_of_getElem? chosen⟩
      · obtain ⟨q, hq, found⟩ := ih following he
        exact ⟨q, List.mem_cons_of_mem _ hq, found⟩
    · cases h

end Parameters

namespace Domain

variable {d : Domain}

theorem mem_namedOf {p : Plane} {run : String × Objective} (h : run ∈ namedOf p) :
    ∃ k, run.1 = runName p.model k ∧ p.objectives[k]? = some run.2 := by
  obtain ⟨k, inside, rfl⟩ := List.mem_mapIdx.mp h
  exact ⟨k, rfl, List.getElem?_eq_getElem inside⟩

theorem model_of_mem_objectives {p : Plane} {o : Objective} (h : o ∈ p.objectives) :
    o.model = p.model := by
  obtain ⟨values, -, rfl⟩ := List.mem_map.mp h
  rfl

theorem model_of_mem_namedOf {p : Plane} {run : String × Objective} (h : run ∈ namedOf p) :
    run.2.model = p.model := by
  obtain ⟨k, -, listed⟩ := mem_namedOf h
  exact model_of_mem_objectives (List.mem_of_getElem? listed)

theorem mem_named {item : String × Objective} (h : item ∈ d.named) :
    ∃ m ∈ d.models.entries, ∃ k, item.1 = runName m.1 k ∧
      (Plane.ofParameters m.1 m.2).objectives[k]? = some item.2 := by
  obtain ⟨plane, hp, listed⟩ := List.mem_flatMap.mp h
  obtain ⟨m, hm, rfl⟩ := List.mem_map.mp hp
  exact ⟨m, hm, mem_namedOf listed⟩

theorem length_namedOf (p : Plane) : (namedOf p).length = p.objectives.length := by
  rw [namedOf, List.length_mapIdx]

theorem names_namedOf (p : Plane) :
    (namedOf p).map Prod.fst = (List.range p.objectives.length).map (runName p.model) := by
  refine List.ext_getElem (by simp [namedOf]) fun i h h' => ?_
  simp [namedOf]

theorem models_planes (d : Domain) : d.planes.map Plane.model = d.models.names := by
  rw [planes, List.map_map]
  rfl

theorem nodup_names (d : Domain) : (d.named.map Prod.fst).Nodup := by
  have names : d.named.map Prod.fst = d.models.entries.flatMap fun m =>
      (List.range (Plane.ofParameters m.1 m.2).objectives.length).map (runName m.1) := by
    rw [named, planes, List.flatMap_map, List.map_flatMap]
    exact congrArg (d.models.entries.flatMap ·) (funext fun m => names_namedOf _)
  rw [names, List.nodup_flatMap]
  refine ⟨fun m _ => ?_, ?_⟩
  · exact List.Nodup.map (fun i j same => (runName_inj same).2) List.nodup_range
  · refine (List.pairwise_map.mp d.models.distinct).imp fun {m n} apart name hm hn => ?_
    obtain ⟨i, _, rfl⟩ := List.mem_map.mp hm
    obtain ⟨j, _, same⟩ := List.mem_map.mp hn
    exact apart (runName_inj same).1.symm

/-- A named objective of a declared domain has its values among the candidates of its model's
parameters and its distributions among the declared ones. -/
theorem Declared.mem_named (declared : d.Declared) {item : String × Objective}
    (h : item ∈ d.named) :
    ∃ m ∈ d.models.entries,
      (∀ e ∈ item.2.values.entries, ∃ p ∈ m.2.entries, e.2 ∈ p.2.candidates) ∧
      ∀ e ∈ item.2.distributions.entries, (e.1, .distribution e.2) ∈ m.2.entries := by
  obtain ⟨m, hm, k, _, listed⟩ := Domain.mem_named h
  obtain ⟨_, values, distributions⟩ :=
    Plane.isNumbered_objective (Plane.inhabited_axes m.1 (declared.valid m hm)) listed
  refine ⟨m, hm, fun e he => ?_, fun e he => ?_⟩
  · obtain ⟨p, hp, _, candidate⟩ := Parameters.mem_point? values he
    exact ⟨p, (Plane.isGrid_of_mem_grid hp).1, candidate⟩
  · rw [distributions, List.mem_filterMap] at he
    obtain ⟨⟨name, kind⟩, hp, kept⟩ := he
    cases kind with
    | distribution d =>
      cases kept
      exact hp
    | fixed value => cases kept
    | categorical values => cases kept

end Domain

namespace NamedCursor

open Domain

/-- What an iteration keeps: the cursor is sound, no model comes twice, and the next number is that of
the objective at which the odometer stands. -/
structure Sound (c : NamedCursor) : Prop where
  cursor : c.cursor.Sound
  apart : (c.cursor.planes.map Plane.model).Nodup
  counted : ∀ p ∈ c.cursor.planes.head?, c.indexFor p.model = Plane.rank p.axes c.cursor.odometer

def coming (c : NamedCursor) : List (String × Objective) :=
  match c.cursor.planes with
  | [] => []
  | p :: rest => (namedOf p).drop (Plane.rank p.axes c.cursor.odometer) ++ rest.flatMap namedOf

theorem sound_ofDomain {d : Domain} (declared : d.Declared) : (ofDomain d).Sound := by
  have inhabited : ∀ p ∈ d.planes, Plane.Inhabited p.axes := by
    intro p hp
    obtain ⟨m, hm, rfl⟩ := List.mem_map.mp hp
    exact Plane.inhabited_axes m.1 (declared.valid m hm)
  refine ⟨Cursor.sound_fresh inhabited d.count, ?_, fun p hp => ?_⟩
  · exact d.models_planes ▸ d.models.distinct
  · obtain ⟨rest, planes⟩ : ∃ rest, d.planes = p :: rest := List.head?_eq_some_iff.mp hp
    have first := (Plane.inRange_zeros (inhabited p (planes ▸ List.mem_cons_self))).2
    have zeros : (Cursor.ofDomain d).odometer = p.axes.map fun _ => 0 := by
      rw [Cursor.ofDomain, planes]
      rfl
    show (ofDomain d).indexFor p.model = Plane.rank p.axes (Cursor.ofDomain d).odometer
    rw [zeros, first]
    rfl

theorem coming_ofDomain {d : Domain} (declared : d.Declared) : (ofDomain d).coming = d.named := by
  have counted := (sound_ofDomain declared).counted
  unfold coming named
  cases planes : d.planes with
  | nil => simp only [ofDomain, Cursor.ofDomain, planes, List.flatMap_nil]
  | cons p rest =>
    have head : p ∈ (ofDomain d).cursor.planes.head? := by
      simp [ofDomain, Cursor.ofDomain, planes]
    have zero : Plane.rank p.axes (ofDomain d).cursor.odometer = 0 := (counted p head).symm
    have shown : (ofDomain d).cursor.planes = p :: rest := planes
    simp only [shown, zero, List.drop_zero, List.flatMap_cons]

theorem getElem?_namedOf {p : Plane} {odometer : List Nat} (inhabited : Plane.Inhabited p.axes)
    (inRange : Plane.InRange p.axes odometer) :
    (namedOf p)[Plane.rank p.axes odometer]? =
      some (runName p.model (Plane.rank p.axes odometer),
        p.objectiveAt (Cursor.chosen p.axes odometer)) := by
  rw [namedOf, List.getElem?_mapIdx, Plane.objectives, List.getElem?_map,
    Plane.getElem?_combinations_rank inhabited inRange]
  rfl

theorem Sound.after {c : NamedCursor} (h : c.Sound) : c.after.Sound := by
  obtain ⟨⟨planes, odometer, remaining⟩, model, index⟩ := c
  obtain ⟨sound, apart, counted⟩ := h
  cases planes with
  | nil => exact ⟨sound, apart, counted⟩
  | cons p rest =>
    have inRange : Plane.InRange p.axes odometer := sound.inRange
    refine ⟨sound.after, ?_, ?_⟩
    · simp only [NamedCursor.after, Cursor.after]
      split
      · exact apart
      · exact (List.nodup_cons.mp apart).2
    · intro q hq
      rcases Cursor.advance_rank inRange with ⟨next, turned, -, turnedRank⟩ | ⟨done, -⟩
      · simp only [NamedCursor.after, Cursor.after, turned, List.head?_cons,
          Option.mem_some_iff] at hq ⊢
        obtain rfl := hq
        simp only [indexFor, if_pos, turnedRank]
        exact congrArg (· + 1) (counted p rfl)
      · -- the next model has no runs yet
        simp only [NamedCursor.after, Cursor.after, done] at hq ⊢
        obtain ⟨others, rfl⟩ := List.head?_eq_some_iff.mp hq
        have other : p.model ≠ q.model := fun same =>
          (List.nodup_cons.mp apart).1 (same ▸ List.mem_cons_self)
        have first := (Plane.inRange_zeros
          (sound.inhabited q (List.mem_cons_of_mem _ List.mem_cons_self))).2
        have differs : ¬ some p.model = some q.model := fun same => other (Option.some.inj same)
        simp only [indexFor, if_neg differs, Cursor.zeros, first]

/-- The cursor takes the first of the named objectives still to come and leaves the others. -/
theorem coming_of_next? {c : NamedCursor} (h : c.Sound) :
    (c.next? = none ∧ c.coming = [] ∧ c.after = c) ∨
    (∃ item, c.next? = some (item, c.after) ∧ c.coming = item :: c.after.coming) := by
  obtain ⟨⟨planes, odometer, remaining⟩, model, index⟩ := c
  obtain ⟨sound, -, counted⟩ := h
  cases planes with
  | nil => exact .inl ⟨rfl, rfl, rfl⟩
  | cons p rest =>
    have inRange : Plane.InRange p.axes odometer := sound.inRange
    obtain ⟨inside, value⟩ := List.getElem?_eq_some_iff.mp
      (getElem?_namedOf (sound.inhabited p List.mem_cons_self) inRange)
    refine .inr ⟨_, rfl, ?_⟩
    change (namedOf p).drop (Plane.rank p.axes odometer) ++ rest.flatMap namedOf = _
    rw [List.drop_eq_getElem_cons inside, value, List.cons_append]
    have name : runName (p.objectiveAt (Cursor.chosen p.axes odometer)).model
        (indexFor ⟨⟨p :: rest, odometer, remaining⟩, model, index⟩
          (p.objectiveAt (Cursor.chosen p.axes odometer)).model) =
        runName p.model (Plane.rank p.axes odometer) := congrArg (runName p.model) (counted p rfl)
    rw [name]
    refine congrArg (List.cons _) ?_
    rcases Cursor.advance_rank inRange with ⟨next, turned, -, turnedRank⟩ | ⟨done, last⟩
    · simp only [after, Cursor.after, turned, coming, turnedRank]
    · have length : (namedOf p).length = Plane.volume p.axes := by
        rw [length_namedOf, Plane.objectives, List.length_map, Plane.length_combinations]
      rw [List.drop_eq_nil_of_le (by omega), List.nil_append]
      simp only [after, Cursor.after, done, coming]
      cases rest with
      | nil => rfl
      | cons q rest =>
        have first := (Plane.inRange_zeros
          (sound.inhabited q (List.mem_cons_of_mem _ List.mem_cons_self))).2
        simp only [Cursor.zeros, first, List.drop_zero, List.flatMap_cons]

theorem drop_succ (n : Nat) (c : NamedCursor) : c.drop (n + 1) = c.after.drop n := by
  rw [drop]
  split
  · rename_i past
    have ended : c.cursor.planes = [] := List.isEmpty_iff.mp past
    have still : c.after = c := by rw [after, ended]
    rw [still]
    cases n with
    | zero => rfl
    | succ n => rw [drop, if_pos past]
  · rfl

theorem next?_drop_coming {c : NamedCursor} (h : c.Sound) (n : Nat) :
    (c.drop n).next?.map Prod.fst = c.coming[n]? := by
  induction n generalizing c with
  | zero =>
    rcases coming_of_next? h with ⟨ended, none, -⟩ | ⟨item, taken, some⟩
    · rw [none]
      exact congrArg (Option.map Prod.fst) ended
    · rw [some]
      exact congrArg (Option.map Prod.fst) taken
  | succ n ih =>
    rw [drop_succ]
    rcases coming_of_next? h with ⟨-, none, still⟩ | ⟨item, -, some⟩
    · rw [still, ih h, none]
      rfl
    · rw [ih h.after, some, List.getElem?_cons_succ]

theorem next?_drop {d : Domain} (declared : d.Declared) (n : Nat) :
    ((ofDomain d).drop n).next?.map Prod.fst = d.named[n]? := by
  rw [next?_drop_coming (sound_ofDomain declared), coming_ofDomain declared]

end NamedCursor

end GridSweep
