import GridSweep.Grid.Objectives

/-!
Visiting the objectives of a domain one after the other, up to the first error, without listing them:
a domain may have more than could ever be listed. Main statement: `Domain.walkNamed_eq`, the walk
visits what the list has, in its order.
-/
namespace GridSweep

/-- A step of a walk: it may fail, and what it changed stays changed. -/
abbrev Step (σ ε : Type) := σ → Except ε Unit × σ

variable {α β σ ε : Type}

def Step.followedBy (first second : Step σ ε) : Step σ ε := fun s =>
  match first s with
  | (.ok (), s) => second s
  | (.error e, s) => (.error e, s)

def walk (step : α → Step σ ε) : List α → Step σ ε
  | [], s => (.ok (), s)
  | a :: rest, s => match step a s with
    | (.ok (), s) => walk step rest s
    | (.error e, s) => (.error e, s)

theorem walk_append (step : α → Step σ ε) (l m : List α) (s : σ) :
    walk step (l ++ m) s = (walk step l).followedBy (walk step m) s := by
  induction l generalizing s with
  | nil => rfl
  | cons a rest ih =>
    simp only [List.cons_append, walk, Step.followedBy]
    split
    · exact ih _
    · rfl

theorem walk_flatMap (step : β → Step σ ε) (f : α → List β) (l : List α) (s : σ) :
    walk step (l.flatMap f) s = walk (fun a => walk step (f a)) l s := by
  induction l generalizing s with
  | nil => rfl
  | cons a rest ih =>
    rw [List.flatMap_cons, walk_append]
    simp only [walk, Step.followedBy]
    split
    · exact ih _
    · rfl

theorem walk_map (step : β → Step σ ε) (f : α → β) (l : List α) (s : σ) :
    walk step (l.map f) s = walk (fun a => step (f a)) l s := by
  induction l generalizing s with
  | nil => rfl
  | cons a rest ih =>
    simp only [List.map_cons, walk]
    split
    · exact ih _
    · rfl

/-- A step that is told how many steps came before it. -/
def numbered (step : Nat → α → Step σ ε) (a : α) : Step (Nat × σ) ε := fun (n, s) =>
  ((step n a s).1, n + 1, (step n a s).2)

theorem walk_numbered (step : Nat → α → Step σ ε) (l : List α) (n : Nat) (s : σ) :
    ((walk (numbered step) l (n, s)).1, (walk (numbered step) l (n, s)).2.2) =
      walk (fun (i, a) => step i a) (l.mapIdx fun i a => (n + i, a)) s := by
  induction l generalizing n s with
  | nil => rfl
  | cons a rest ih =>
    simp only [List.mapIdx_cons, walk, numbered, Nat.add_zero]
    match h : step n a s with
    | (.ok (), s') =>
      simp only [ih]
      simp only [Nat.add_comm, Nat.add_left_comm]
    | (.error e, s') => rfl

namespace Plane

/-- Takes a step for every choice of one candidate on each axis, the last axis varying fastest. -/
def walkCombinations (step : List (String × Json) → Step σ ε) : List Axis → Step σ ε
  | [] => step []
  | (name, candidates) :: rest =>
    walk (fun value => walkCombinations (fun chosen => step ((name, value) :: chosen)) rest) candidates

theorem walkCombinations_eq (axes : List Axis) (step : List (String × Json) → Step σ ε) :
    walkCombinations step axes = walk step (combinations axes) := by
  induction axes generalizing step with
  | nil =>
    funext s
    simp only [walkCombinations, combinations, walk]
    split <;> simp_all
  | cons axis rest ih =>
    funext s
    rw [walkCombinations, combinations, walk_flatMap]
    congr 1
    funext value s
    rw [ih, walk_map]

/-- Takes a step for every objective of a model with the name of its run. -/
def walkNamed (step : String × Objective → Step σ ε) (p : Plane) : Step σ ε := fun s =>
  let visit := numbered fun i values => step (runName p.model i, p.objectiveAt values)
  let (result, _, s) := walkCombinations visit p.axes (0, s)
  (result, s)

theorem walkNamed_eq (step : String × Objective → Step σ ε) (p : Plane) (s : σ) :
    p.walkNamed step s = walk step (Domain.namedOf p) s := by
  have listed : Domain.namedOf p =
      ((combinations p.axes).mapIdx fun i values => (0 + i, values)).map
        fun (i, values) => (runName p.model i, p.objectiveAt values) := by
    refine List.ext_getElem? fun i => ?_
    simp [Domain.namedOf, objectives, List.getElem?_mapIdx, Function.comp_def]
  rw [listed, walk_map, walkNamed, walkCombinations_eq]
  exact walk_numbered (fun i values => step (runName p.model i, p.objectiveAt values)) _ 0 s

end Plane

def Domain.walkNamed (step : String × Objective → Step σ ε) (d : Domain) : Step σ ε :=
  walk (fun p => p.walkNamed step) d.planes

theorem Domain.walkNamed_eq (step : String × Objective → Step σ ε) (d : Domain) (s : σ) :
    d.walkNamed step s = walk step d.named s := by
  rw [walkNamed, named, walk_flatMap]
  congr 1
  funext p s
  exact p.walkNamed_eq step s

end GridSweep
