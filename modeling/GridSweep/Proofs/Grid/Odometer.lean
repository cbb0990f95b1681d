import Mathlib.Data.List.Forall2
import GridSweep.Grid.Cursor
import GridSweep.Proofs.Domain.Declared

/-!
The grid as an odometer. The combinations of the candidates on several axes are numbered in mixed
radix, the last axis being the lowest digit; a cursor shows the digits of one number after the other,
so it visits what the domain lists, and no digit ever leaves its axis.
-/
namespace GridSweep

namespace Plane

def volume : List Axis → Nat
  | [] => 1
  | axis :: rest => axis.2.length * volume rest

/-- The digits of a number: on each axis, the number divided by the volume of the later axes, modulo
the number of candidates. -/
def digits : List Axis → Nat → List Nat
  | [], _ => []
  | axis :: rest, k => k / volume rest % axis.2.length :: digits rest k

def rank : List Axis → List Nat → Nat
  | _ :: rest, i :: odometer => i * volume rest + rank rest odometer
  | _, _ => 0

def InRange (axes : List Axis) (odometer : List Nat) : Prop :=
  List.Forall₂ (fun axis i => i < axis.2.length) axes odometer

def Inhabited (axes : List Axis) : Prop := ∀ axis ∈ axes, 0 < axis.2.length

theorem volume_pos {axes : List Axis} (inhabited : Inhabited axes) : 0 < volume axes := by
  induction axes with
  | nil => exact Nat.one_pos
  | cons axis rest ih =>
    have later : 0 < volume rest := ih fun a ha => inhabited a (List.mem_cons_of_mem _ ha)
    exact Nat.mul_pos (inhabited axis List.mem_cons_self) later

theorem digits_inRange {axes : List Axis} (inhabited : Inhabited axes) (k : Nat) :
    InRange axes (digits axes k) := by
  induction axes with
  | nil => exact .nil
  | cons axis rest ih =>
    have later := ih fun a ha => inhabited a (List.mem_cons_of_mem _ ha)
    exact .cons (Nat.mod_lt _ (inhabited axis List.mem_cons_self)) later

theorem digits_add_turns (axes : List Axis) (inhabited : Inhabited axes) (turns k : Nat) :
    digits axes (turns * volume axes + k) = digits axes k := by
  induction axes generalizing turns with
  | nil => rfl
  | cons axis rest ih =>
    have inhabited' : Inhabited rest := fun a ha => inhabited a (List.mem_cons_of_mem _ ha)
    have more : turns * volume (axis :: rest) + k =
        turns * axis.2.length * volume rest + k := by
      rw [volume, Nat.mul_assoc]
    have quotient : (turns * axis.2.length * volume rest + k) / volume rest =
        turns * axis.2.length + k / volume rest := by
      rw [Nat.mul_comm _ (volume rest), Nat.mul_add_div (volume_pos inhabited')]
    rw [digits, digits, more, ih inhabited', quotient, Nat.mul_comm turns, Nat.mul_add_mod]

theorem rank_lt_volume {axes : List Axis} {odometer : List Nat} (h : InRange axes odometer) :
    rank axes odometer < volume axes := by
  induction h with
  | nil => exact Nat.one_pos
  | @cons axis i rest odometer below _ ih =>
    have row : (i + 1) * volume rest ≤ axis.2.length * volume rest :=
      Nat.mul_le_mul_right _ below
    rw [Nat.succ_mul] at row
    simp only [rank, volume]
    omega

theorem digits_rank {axes : List Axis} (inhabited : Inhabited axes) {odometer : List Nat}
    (h : InRange axes odometer) : digits axes (rank axes odometer) = odometer := by
  induction h with
  | nil => rfl
  | @cons axis i rest odometer below later ih =>
    have inhabited' : Inhabited rest := fun a ha => inhabited a (List.mem_cons_of_mem _ ha)
    have quotient : (i * volume rest + rank rest odometer) / volume rest = i := by
      rw [Nat.mul_comm, Nat.mul_add_div (volume_pos inhabited'),
        Nat.div_eq_of_lt (rank_lt_volume later), Nat.add_zero]
    rw [rank, digits, digits_add_turns rest inhabited', ih inhabited', quotient,
      Nat.mod_eq_of_lt below]

/-- A list put together from pieces of one length, by the number of the piece and the place in it. -/
theorem getElem?_flatMap_of_length {α β : Type} {f : α → List β} {size : Nat}
    (uniform : ∀ a, (f a).length = size) (l : List α) (i : Nat) {j : Nat} (h : j < size) :
    (l.flatMap f)[i * size + j]? = l[i]?.bind fun a => (f a)[j]? := by
  induction l generalizing i with
  | nil => simp
  | cons a rest ih =>
    rw [List.flatMap_cons]
    cases i with
    | zero => simp [List.getElem?_append_left, uniform, h]
    | succ i =>
      have past : size ≤ (i + 1) * size + j := by rw [Nat.succ_mul]; omega
      have back : (i + 1) * size + j - size = i * size + j := by rw [Nat.succ_mul]; omega
      rw [List.getElem?_append_right (by rw [uniform]; exact past), uniform, back, ih]
      simp

theorem length_combinations (axes : List Axis) : (combinations axes).length = volume axes := by
  induction axes with
  | nil => rfl
  | cons axis rest ih =>
    simp only [combinations, volume, List.length_flatMap, List.length_map, ih]
    induction axis.2 with
    | nil => simp
    | cons value values sum =>
      rw [List.map_cons, List.sum_cons, sum, List.length_cons, Nat.succ_mul, Nat.add_comm]

theorem getElem?_combinations {axes : List Axis} (inhabited : Inhabited axes) {k : Nat}
    (h : k < volume axes) : (combinations axes)[k]? = some (Cursor.chosen axes (digits axes k)) := by
  induction axes generalizing k with
  | nil =>
    have first : k = 0 := Nat.lt_one_iff.mp h
    subst first
    rfl
  | cons axis rest ih =>
    have inhabited' : Inhabited rest := fun a ha => inhabited a (List.mem_cons_of_mem _ ha)
    have positive := volume_pos inhabited'
    have row : k / volume rest < axis.2.length := (Nat.div_lt_iff_lt_mul positive).mpr h
    have column : k % volume rest < volume rest := Nat.mod_lt _ positive
    have split : k = k / volume rest * volume rest + k % volume rest := (Nat.div_add_mod' k _).symm
    have lower : digits rest (k % volume rest) = digits rest k := by
      conv => rhs; rw [split, digits_add_turns rest inhabited']
    have uniform (value : Json) :
        ((combinations rest).map ((axis.1, value) :: ·)).length = volume rest := by
      rw [List.length_map, length_combinations]
    rw [combinations]
    conv => lhs; rw [split]
    rw [getElem?_flatMap_of_length uniform _ _ column, List.getElem?_eq_getElem row,
      Option.bind_some, List.getElem?_map, ih inhabited' column, lower, digits,
      Nat.mod_eq_of_lt row, Cursor.chosen, List.getD_eq_getElem?_getD,
      List.getElem?_eq_getElem row]
    rfl

theorem getElem?_combinations_rank {axes : List Axis} (inhabited : Inhabited axes)
    {odometer : List Nat} (h : InRange axes odometer) :
    (combinations axes)[rank axes odometer]? = some (Cursor.chosen axes odometer) := by
  rw [getElem?_combinations inhabited (rank_lt_volume h), digits_rank inhabited h]

theorem inRange_reset {axes : List Axis} {odometer : List Nat} (h : InRange axes odometer) :
    InRange axes (odometer.map fun _ => 0) ∧ rank axes (odometer.map fun _ => 0) = 0 := by
  induction h with
  | nil => exact ⟨.nil, rfl⟩
  | cons below _ ih =>
    exact ⟨.cons (Nat.zero_lt_of_lt below) ih.1, by
      simp only [List.map_cons, rank, Nat.zero_mul, Nat.zero_add, ih.2]⟩

theorem inRange_zeros {axes : List Axis} (inhabited : Inhabited axes) :
    InRange axes (axes.map fun _ => 0) ∧ rank axes (axes.map fun _ => 0) = 0 := by
  induction axes with
  | nil => exact ⟨.nil, rfl⟩
  | cons axis rest ih =>
    have later := ih fun a ha => inhabited a (List.mem_cons_of_mem _ ha)
    exact ⟨.cons (inhabited axis List.mem_cons_self) later.1, by
      simp only [List.map_cons, rank, Nat.zero_mul, Nat.zero_add, later.2]⟩

end Plane

namespace Cursor

open Plane

/-- One step of the odometer: the next number, or the end of the plane after the last one. -/
theorem advance_rank {axes : List Axis} {odometer : List Nat} (h : Plane.InRange axes odometer) :
    (∃ next, advance axes odometer = some next ∧ Plane.InRange axes next ∧
      rank axes next = rank axes odometer + 1) ∨
    (advance axes odometer = none ∧ rank axes odometer + 1 = volume axes) := by
  induction h with
  | nil => exact .inr ⟨rfl, rfl⟩
  | @cons axis i rest odometer below later ih =>
    rcases ih with ⟨next, turned, inRange, counted⟩ | ⟨done, counted⟩
    · refine .inl ⟨i :: next, ?_, .cons below inRange, ?_⟩
      · rw [advance, turned]
      · rw [rank, rank, counted, Nat.add_assoc]
    · -- the later axes are through: this one turns, or all are through
      by_cases more : i + 1 < axis.2.length
      · obtain ⟨inRange, zero⟩ := inRange_reset later
        refine .inl ⟨(i + 1) :: odometer.map fun _ => 0, ?_, .cons more inRange, ?_⟩
        · rw [advance, done]
          exact if_pos more
        · rw [rank, rank, zero, Nat.succ_mul, Nat.add_zero, Nat.add_assoc, counted]
      · refine .inr ⟨?_, ?_⟩
        · rw [advance, done]
          exact if_neg more
        · have last : axis.2.length = i + 1 := by omega
          rw [rank, volume, last, Nat.succ_mul, Nat.add_assoc, counted]

/-- The digits of the cursor belong to the axes of the model it is in. -/
def InRange (c : Cursor) : Prop :=
  match c.planes with
  | [] => True
  | p :: _ => Plane.InRange p.axes c.odometer

/-- What an iteration keeps: the digits are in range, and every axis to come has a candidate. -/
structure Sound (c : Cursor) : Prop where
  inRange : c.InRange
  inhabited : ∀ p ∈ c.planes, Plane.Inhabited p.axes

def coming (c : Cursor) : List Objective :=
  match c.planes with
  | [] => []
  | p :: rest =>
    ((combinations p.axes).drop (rank p.axes c.odometer)).map p.objectiveAt ++
      rest.flatMap Plane.objectives

theorem sound_fresh {planes : List Plane} (inhabited : ∀ p ∈ planes, Plane.Inhabited p.axes)
    (remaining : Nat) : Sound ⟨planes, zeros planes, remaining⟩ := by
  refine ⟨?_, inhabited⟩
  cases planes with
  | nil => trivial
  | cons p rest => exact (inRange_zeros (inhabited p List.mem_cons_self)).1

theorem coming_fresh {planes : List Plane} (inhabited : ∀ p ∈ planes, Plane.Inhabited p.axes)
    (remaining : Nat) :
    coming ⟨planes, zeros planes, remaining⟩ = planes.flatMap Plane.objectives := by
  cases planes with
  | nil => rfl
  | cons p rest =>
    have first := (inRange_zeros (inhabited p List.mem_cons_self)).2
    simp only [coming, zeros, first, List.drop_zero, List.flatMap_cons, Plane.objectives]

theorem Sound.after {c : Cursor} (h : c.Sound) : c.after.Sound := by
  obtain ⟨planes, odometer, remaining⟩ := c
  cases planes with
  | nil => exact h
  | cons p rest =>
    rcases advance_rank h.inRange with ⟨next, turned, inRange, -⟩ | ⟨done, -⟩
    · simp only [Cursor.after, turned]
      exact ⟨inRange, h.inhabited⟩
    · simp only [Cursor.after, done]
      exact sound_fresh (fun q hq => h.inhabited q (List.mem_cons_of_mem _ hq)) _

theorem coming_of_next? {c : Cursor} (h : c.Sound) :
    (c.next? = none ∧ c.coming = [] ∧ c.after = c) ∨
    (∃ o, c.next? = some (o, c.after) ∧ c.coming = o :: c.after.coming) := by
  obtain ⟨planes, odometer, remaining⟩ := c
  cases planes with
  | nil => exact .inl ⟨rfl, rfl, rfl⟩
  | cons p rest =>
    have inhabited := h.inhabited p List.mem_cons_self
    have inRange : Plane.InRange p.axes odometer := h.inRange
    obtain ⟨inside, value⟩ :=
      List.getElem?_eq_some_iff.mp (getElem?_combinations_rank inhabited inRange)
    refine .inr ⟨_, rfl, ?_⟩
    change ((combinations p.axes).drop (rank p.axes odometer)).map p.objectiveAt ++
      rest.flatMap Plane.objectives = _
    rw [List.drop_eq_getElem_cons inside, value, List.map_cons, List.cons_append]
    rcases advance_rank inRange with ⟨next, turned, -, counted⟩ | ⟨done, counted⟩
    · simp only [Cursor.after, turned, coming, counted]
    · have past : (combinations p.axes).length ≤ rank p.axes odometer + 1 :=
        Nat.le_of_eq ((length_combinations _).trans counted.symm)
      simp only [Cursor.after, done]
      rw [List.drop_eq_nil_of_le past, List.map_nil, List.nil_append,
        coming_fresh fun q hq => h.inhabited q (List.mem_cons_of_mem _ hq)]

theorem drop_succ (n : Nat) (c : Cursor) : c.drop (n + 1) = c.after.drop n := by
  rw [drop]
  split
  · rename_i past
    have ended : c.planes = [] := List.isEmpty_iff.mp past
    have still : c.after = c := by rw [after, ended]
    rw [still]
    cases n with
    | zero => rfl
    | succ n => rw [drop, if_pos past]
  · rfl

theorem coming_drop {c : Cursor} (h : c.Sound) (n : Nat) :
    (c.drop n).Sound ∧ (c.drop n).coming = c.coming.drop n := by
  induction n generalizing c with
  | zero => exact ⟨h, rfl⟩
  | succ n ih =>
    rw [drop_succ]
    obtain ⟨sound, left⟩ := ih h.after
    refine ⟨sound, left.trans ?_⟩
    rcases coming_of_next? h with ⟨-, none, still⟩ | ⟨o, -, some⟩
    · rw [still, none, List.drop_nil, List.drop_nil]
    · rw [some, List.drop_succ_cons]

theorem next?_drop {c : Cursor} (h : c.Sound) (n : Nat) :
    (c.drop n).next?.map Prod.fst = c.coming[n]? := by
  obtain ⟨sound, left⟩ := coming_drop h n
  rw [← List.head?_drop, ← left]
  rcases coming_of_next? sound with ⟨ended, none, -⟩ | ⟨o, taken, some⟩
  · rw [ended, none]
    rfl
  · rw [taken, some]
    rfl

end Cursor

end GridSweep
