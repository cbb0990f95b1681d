import GridSweep.Proofs.Number.Distinct

namespace GridSweep.Double

/-- The strict total order of IEEE 754. Numbers are ordered by value, with `-0` before `0`. Negative
not-a-numbers come before all numbers and positive ones after them; those of one sign are ordered by
their fractions, the negative ones downwards. -/
def Precedes (x y : Double) : Prop :=
  match x.isNaN, y.isNaN with
  | false, false => x.scaled < y.scaled ∨
      x.isZero = true ∧ y.isZero = true ∧ x.negative = true ∧ y.negative = false
  | true, false => x.negative = true
  | false, true => y.negative = false
  | true, true => match x.negative, y.negative with
    | true, false => True
    | false, true => False
    | false, false => x.fraction < y.fraction
    | true, true => y.fraction < x.fraction

/-- The place of a number among those of its sign, by exponent and fraction. -/
def place (x : Double) : Nat := x.exponent.val * 0x10000000000000 + x.fraction.val

theorem rank_eq (x : Double) : x.rank = if x.negative then -(x.place : Int) - 1 else x.place := rfl

theorem isNaN_iff {x : Double} : x.isNaN = true ↔ 2047 * 0x10000000000000 < x.place := by
  have := x.exponent.isLt
  have := x.fraction.isLt
  rw [isNaN, Bool.and_eq_true, beq_iff_eq, bne_iff_ne, place]
  omega

theorem magnitude_lt_of_place_lt {x y : Double} (less : x.place < y.place) :
    x.magnitude < y.magnitude := by
  have := x.fraction.isLt
  have := y.fraction.isLt
  unfold place at less
  by_cases units : x.unit < y.unit
  · exact magnitude_lt_of_unit_lt units
  · -- the exponents are the same, or zero and one: the significands decide
    have same : x.unit = y.unit := by
      unfold unit at units ⊢
      omega
    have significands : x.significand < y.significand := by
      unfold unit at units
      unfold significand
      split <;> split <;> omega
    rw [magnitude_eq, magnitude_eq, same]
    exact Nat.mul_lt_mul_of_pos_right significands (Nat.two_pow_pos _)

theorem magnitude_le_of_place_le {x y : Double} (le : x.place ≤ y.place) :
    x.magnitude ≤ y.magnitude := by
  rcases Nat.lt_or_eq_of_le le with less | same
  · exact (magnitude_lt_of_place_lt less).le
  · have := x.fraction.isLt
    have := y.fraction.isLt
    unfold place at same
    have exponents : x.exponent.val = y.exponent.val := by omega
    have fractions : x.fraction.val = y.fraction.val := by omega
    rw [magnitude, magnitude, significand, significand, unit, unit, exponents, fractions]

theorem magnitude_lt_iff {x y : Double} : x.magnitude < y.magnitude ↔ x.place < y.place :=
  ⟨fun less => Nat.lt_of_not_le fun le => Nat.not_lt_of_le (magnitude_le_of_place_le le) less,
    magnitude_lt_of_place_lt⟩

/-- Ranks order as values do, and tell the zeros apart. -/
theorem rank_lt_iff_value {x y : Double} :
    x.rank < y.rank ↔ x.scaled < y.scaled ∨
      x.isZero = true ∧ y.isZero = true ∧ x.negative = true ∧ y.negative = false := by
  have below := @magnitude_lt_iff x y
  have above := @magnitude_lt_iff y x
  rw [← magnitude_eq_zero_iff, ← magnitude_eq_zero_iff, rank_eq, rank_eq, scaled, scaled]
  cases x.negative <;> cases y.negative <;>
    simp only [reduceCtorEq, if_false, if_true, and_true, and_false, or_false] <;> omega

/-- A not-a-number has a larger place than any number, so its sign alone decides between them. -/
theorem rank_lt_iff_of_isNaN {x y : Double} (hx : x.isNaN = true) (hy : y.isNaN = false) :
    (x.rank < y.rank ↔ x.negative = true) ∧ (y.rank < x.rank ↔ x.negative = false) := by
  have far := isNaN_iff.mp hx
  have near : ¬ 2047 * 0x10000000000000 < y.place := fun past => by
    rw [isNaN_iff.mpr past] at hy
    cases hy
  rw [rank_eq, rank_eq]
  cases x.negative <;> cases y.negative <;>
    simp only [reduceCtorEq, if_false, if_true, iff_true, iff_false] <;> omega

theorem exponent_of_isNaN {x : Double} (h : x.isNaN = true) : x.exponent.val = 2047 := by
  rw [isNaN, Bool.and_eq_true, beq_iff_eq] at h
  exact h.1

theorem rank_lt_iff {x y : Double} : x.rank < y.rank ↔ x.Precedes y := by
  unfold Precedes
  split
  · exact rank_lt_iff_value
  · rename_i hx hy
    exact (rank_lt_iff_of_isNaN hx hy).1
  · rename_i hx hy
    exact (rank_lt_iff_of_isNaN hy hx).2
  · rename_i hx hy
    rw [rank_eq, rank_eq, place, place, exponent_of_isNaN hx, exponent_of_isNaN hy]
    cases x.negative <;> cases y.negative <;>
      simp only [reduceCtorEq, if_false, if_true, iff_true, iff_false, Fin.lt_def] <;> omega

theorem rank_inj {x y : Double} : x.rank = y.rank ↔ x = y := by
  refine ⟨fun same => ?_, congrArg rank⟩
  obtain ⟨negative, exponent, fraction⟩ := x
  obtain ⟨negative', exponent', fraction'⟩ := y
  have := fraction.isLt
  have := fraction'.isLt
  simp only [rank_eq, place] at same
  have parts : negative = negative' ∧ exponent.val = exponent'.val ∧ fraction.val = fraction'.val := by
    cases negative <;> cases negative' <;>
      simp only [reduceCtorEq, if_false, if_true, true_and, false_and] at same ⊢ <;> omega
  rw [parts.1, Fin.ext parts.2.1, Fin.ext parts.2.2]

end GridSweep.Double
