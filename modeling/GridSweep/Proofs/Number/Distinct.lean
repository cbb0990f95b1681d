import GridSweep.Proofs.Json.Numerals
import Mathlib.Algebra.Order.Field.Power
import Mathlib.Tactic.FieldSimp
import Mathlib.Tactic.Linarith
import Mathlib.Tactic.NormNum
import Mathlib.Tactic.Positivity
import Mathlib.Tactic.Ring

/-!
Different numbers are written differently (`Number.text_inj`). The decimal that is written for a
floating-point number lies among the values that round to it, and no value rounds to two numbers; a
numeral shows the sign and the value of the decimal, and whether it stands for an integer.
-/
namespace GridSweep

namespace Decimal

def value (d : Decimal) : ℚ := d.digits * 10 ^ d.exponent

theorem value_trimmed (n : Nat) (d : Decimal) : (trimmed n d).value = d.value := by
  induction n generalizing d with
  | zero => rfl
  | succ n ih =>
    rw [trimmed]
    split
    · rename_i h
      have whole : d.digits = d.digits / 10 * 10 := by omega
      have cast : (d.digits : ℚ) = (d.digits / 10 : ℕ) * 10 := by exact_mod_cast whole
      rw [ih, value, value, cast, zpow_add_one₀ (by norm_num)]
      ring
    · rfl

namespace Interval

def Contains (i : Interval) (q : ℚ) : Prop :=
  if i.closed then (i.low : ℚ) ≤ q * i.denominator ∧ q * i.denominator ≤ i.high
  else (i.low : ℚ) < q * i.denominator ∧ q * i.denominator < i.high

theorem contains_of_holds {i : Interval} {n : Nat} (h : i.holds (n * i.denominator) = true) :
    i.Contains n := by
  unfold holds at h
  unfold Contains
  split
  · rename_i closed
    rw [if_pos closed, Bool.and_eq_true, decide_eq_true_eq, decide_eq_true_eq] at h
    exact_mod_cast h
  · rename_i opened
    rw [if_neg opened, Bool.and_eq_true, decide_eq_true_eq, decide_eq_true_eq] at h
    exact_mod_cast h

theorem contains_of_nearest? {i : Interval} {tie : Tie} {n : Nat} (h : i.nearest? tie = some n) :
    i.Contains n := by
  apply contains_of_holds
  simp only [nearest?, Bool.and_eq_true] at h
  split at h
  · rename_i both
    split at h
    · exact Option.some.inj h ▸ both.1
    · split at h
      · exact Option.some.inj h ▸ both.2
      · -- A half goes to the floor or to the number above it.
        cases tie with
        | toEven =>
          rcases Nat.mod_two_eq_zero_or_one (i.middle / i.denominator) with even | odd
          · simp only [Tie.choose, even, Nat.add_zero] at h
            exact Option.some.inj h ▸ both.1
          · simp only [Tie.choose, odd] at h
            exact Option.some.inj h ▸ both.2
        | up => exact Option.some.inj h ▸ both.2
  · split at h
    · rename_i below
      exact Option.some.inj h ▸ below
    · split at h
      · rename_i above
        exact Option.some.inj h ▸ above
      · cases h

theorem contains_of_shift {i : Interval} {exponent : Int} {q : ℚ}
    (h : (i.shift exponent).Contains q) : i.Contains (q * 10 ^ exponent) := by
  unfold shift at h
  split at h
  · rename_i up
    obtain ⟨n, rfl⟩ := Int.eq_ofNat_of_zero_le up
    have scaled : q * 10 ^ (n : Int) * i.denominator = q * ((i.denominator * Nat.pow 10 n : ℕ) : ℚ) := by
      rw [zpow_natCast, Nat.pow_eq]
      push_cast
      ring
    unfold Contains at h ⊢
    rw [scaled]
    exact h
  · rename_i down
    obtain ⟨n, hn⟩ : ∃ n : Nat, exponent = -(n : Int) := ⟨(-exponent).toNat, by omega⟩
    subst hn
    have ten : (0 : ℚ) < 10 ^ n := by positivity
    have scaled : q * 10 ^ (-(n : Int)) * i.denominator = q * i.denominator / 10 ^ n := by
      rw [zpow_neg, zpow_natCast]
      field_simp
    have back : (-(-(n : Int))).toNat = n := by omega
    unfold Contains at h ⊢
    rw [scaled]
    simp only [back, Nat.pow_eq, Nat.cast_mul, Nat.cast_pow, Nat.cast_ofNat] at h
    simp only [le_div_iff₀ ten, div_le_iff₀ ten, lt_div_iff₀ ten, div_lt_iff₀ ten]
    exact h

end Interval

theorem contains_of_search {i : Interval} {tie : Tie} (n : Nat) (exponent : Int) {d : Decimal}
    (h : search i tie n exponent = some d) : i.Contains d.value := by
  induction n generalizing exponent with
  | zero => cases h
  | succ n ih =>
    rw [search] at h
    split at h
    · rename_i digits hit
      cases h
      exact Interval.contains_of_shift (Interval.contains_of_nearest? hit)
    · exact ih _ h

end Decimal

namespace Double

/-- How many quarters of the smallest step make one. -/
def scale : ℚ := 2 ^ 1076

theorem scale_pos : 0 < scale := by
  unfold scale
  positivity

/-- The ends of the interval of values that round to a number, counted in those quarters. -/
def lowEnd (x : Double) : Nat :=
  (4 * x.significand - if x.significand = 0x10000000000000 ∧ 0 < x.unit then 1 else 2) * 2 ^ x.unit

def highEnd (x : Double) : Nat := (4 * x.significand + 2) * 2 ^ x.unit

/-- The rational number lies between the ends, which belong to an even significand only. -/
def RoundedFrom (x : Double) (q : ℚ) : Prop :=
  if x.significand % 2 = 0 then (x.lowEnd : ℚ) ≤ q * scale ∧ q * scale ≤ x.highEnd
  else (x.lowEnd : ℚ) < q * scale ∧ q * scale < x.highEnd

theorem two_pow_split (unit bound : Nat) :
    2 ^ (unit - bound) * 2 ^ bound = 2 ^ unit * 2 ^ (bound - unit) := by
  rw [← Nat.pow_add, ← Nat.pow_add]
  congr 1
  omega

theorem contains_interval_iff {x : Double} {q : ℚ} :
    (Decimal.interval x).Contains q ↔ x.RoundedFrom q := by
  -- Both sides compare the same numbers, once over the denominator and once over `2 ^ 1076`.
  have den : (0 : ℚ) < 2 ^ (1076 - x.unit) := by positivity
  have whole := scale_pos
  have ends (n : Nat) : ((n * 2 ^ x.unit : ℕ) : ℚ) * 2 ^ (1076 - x.unit) =
      ((n * 2 ^ (x.unit - 1076) : ℕ) : ℚ) * scale := by
    have split := two_pow_split x.unit 1076
    have same : n * 2 ^ x.unit * 2 ^ (1076 - x.unit) = n * 2 ^ (x.unit - 1076) * 2 ^ 1076 := by
      rw [Nat.mul_assoc, ← split, Nat.mul_assoc]
    simpa only [scale, Nat.cast_mul, Nat.cast_pow, Nat.cast_ofNat] using
      congrArg (Nat.cast : ℕ → ℚ) same
  have turned : q * scale * 2 ^ (1076 - x.unit) = q * 2 ^ (1076 - x.unit) * scale := by ring
  have le_low (n : Nat) : ((n * 2 ^ (x.unit - 1076) : ℕ) : ℚ) ≤ q * 2 ^ (1076 - x.unit) ↔
      ((n * 2 ^ x.unit : ℕ) : ℚ) ≤ q * scale := by
    rw [← mul_le_mul_iff_of_pos_right whole, ← ends, ← turned, mul_le_mul_iff_of_pos_right den]
  have le_high (n : Nat) : q * 2 ^ (1076 - x.unit) ≤ ((n * 2 ^ (x.unit - 1076) : ℕ) : ℚ) ↔
      q * scale ≤ ((n * 2 ^ x.unit : ℕ) : ℚ) := by
    rw [← mul_le_mul_iff_of_pos_right whole, ← ends, ← turned, mul_le_mul_iff_of_pos_right den]
  unfold Decimal.Interval.Contains RoundedFrom Decimal.interval lowEnd highEnd
  simp only [Nat.one_shiftLeft, beq_iff_eq, Nat.cast_pow, Nat.cast_ofNat, ← not_le, le_low, le_high]

theorem significand_lt (x : Double) : x.significand < 2 ^ 53 := by
  have := x.fraction.isLt
  unfold significand
  split <;> omega

theorem le_significand {x : Double} (h : 0 < x.unit) : 2 ^ 52 ≤ x.significand := by
  unfold unit at h
  unfold significand
  split <;> omega

theorem eq_of_parts {x y : Double} (units : x.unit = y.unit)
    (significands : x.significand = y.significand) (signs : x.negative = y.negative) : x = y := by
  obtain ⟨negative, exponent, fraction⟩ := x
  obtain ⟨negative', exponent', fraction'⟩ := y
  simp only [unit, significand] at units significands
  have := fraction.isLt
  have := fraction'.isLt
  have exponents : exponent.val = exponent'.val := by
    split at significands <;> split at significands <;> omega
  have fractions : fraction.val = fraction'.val := by
    rw [exponents] at significands
    split at significands <;> omega
  simp only [mk.injEq]
  exact ⟨signs, Fin.ext exponents, Fin.ext fractions⟩

theorem two_mul_two_pow_le {a b : Nat} (less : a < b) : 2 * 2 ^ a ≤ 2 ^ b := by
  rw [Nat.mul_comm, ← Nat.pow_succ]
  exact Nat.pow_le_pow_right Nat.two_pos less

theorem magnitude_eq (x : Double) : x.magnitude = x.significand * 2 ^ x.unit :=
  Nat.shiftLeft_eq _ _

theorem magnitude_eq_zero_iff {x : Double} : x.magnitude = 0 ↔ x.isZero = true := by
  rw [magnitude, Nat.shiftLeft_eq]
  cases h : x.isZero with
  | true =>
    simp only [isZero, Bool.and_eq_true, beq_iff_eq] at h
    simp [significand, h]
  | false =>
    have := significand_pos h
    simp
    omega

theorem magnitude_lt_of_unit_lt {x y : Double} (less : x.unit < y.unit) :
    x.magnitude < y.magnitude := by
  have normal := le_significand (Nat.zero_lt_of_lt less)
  rw [magnitude_eq, magnitude_eq]
  calc x.significand * 2 ^ x.unit < 2 ^ 53 * 2 ^ x.unit :=
        Nat.mul_lt_mul_of_pos_right x.significand_lt (Nat.two_pow_pos _)
    _ = 2 ^ 52 * (2 * 2 ^ x.unit) := by ring
    _ ≤ y.significand * 2 ^ y.unit := Nat.mul_le_mul normal (two_mul_two_pow_le less)

/-- Of two numbers the one of smaller unit, or of smaller significand under the same unit, has its
interval below that of the other. The intervals meet at most where one of them is open. -/
theorem highEnd_below {x y : Double}
    (less : x.unit < y.unit ∨ x.unit = y.unit ∧ x.significand < y.significand) :
    x.highEnd < y.lowEnd ∨
      x.highEnd ≤ y.lowEnd ∧ (x.significand % 2 = 1 ∨ y.significand % 2 = 1) := by
  have bound := x.significand_lt
  unfold highEnd lowEnd
  rcases less with units | ⟨units, significands⟩
  · have normal := le_significand (Nat.zero_lt_of_lt units)
    have powers := two_mul_two_pow_le units
    have low : 2 ^ 54 - 1 ≤ 4 * y.significand -
        if y.significand = 0x10000000000000 ∧ 0 < y.unit then 1 else 2 := by
      split <;> omega
    have high : (2 ^ 54 - 1) * (2 * 2 ^ x.unit) ≤ (4 * y.significand -
        if y.significand = 0x10000000000000 ∧ 0 < y.unit then 1 else 2) * 2 ^ y.unit :=
      Nat.mul_le_mul low powers
    have unit := Nat.one_le_two_pow (n := x.unit)
    by_cases last : x.significand = 2 ^ 53 - 1
    · refine .inr ⟨le_trans ?_ high, .inl (by omega)⟩
      rw [last]
      omega
    · refine .inl (lt_of_lt_of_le ?_ high)
      have : 4 * x.significand + 2 < (2 ^ 54 - 1) * 2 := by omega
      nlinarith
  · rw [← units]
    have unit := Nat.one_le_two_pow (n := x.unit)
    have below : 4 * x.significand + 2 ≤ 4 * y.significand -
        if y.significand = 0x10000000000000 ∧ 0 < x.unit then 1 else 2 := by
      split
      · rename_i edge
        have := le_significand edge.2
        omega
      · omega
    by_cases next : y.significand = x.significand + 1
    · exact .inr ⟨Nat.mul_le_mul_right _ below, by omega⟩
    · refine .inl (Nat.mul_lt_mul_of_pos_right ?_ unit)
      split <;> omega

theorem le_highEnd {x : Double} {q : ℚ} (hx : x.RoundedFrom q) : q * scale ≤ x.highEnd := by
  unfold RoundedFrom at hx
  split at hx
  · exact hx.2
  · exact hx.2.le

theorem lowEnd_le {x : Double} {q : ℚ} (hx : x.RoundedFrom q) : (x.lowEnd : ℚ) ≤ q * scale := by
  unfold RoundedFrom at hx
  split at hx
  · exact hx.1
  · exact hx.1.le

/-- What a value rounds to is not less than what a value below it rounds to. -/
theorem not_less_of_roundedFrom {x y : Double} {p q : ℚ} (hx : x.RoundedFrom p)
    (hy : y.RoundedFrom q) (le : q ≤ p) :
    ¬ (x.unit < y.unit ∨ x.unit = y.unit ∧ x.significand < y.significand) := by
  intro less
  have upper := le_highEnd hx
  have lower := lowEnd_le hy
  have order : q * scale ≤ p * scale := mul_le_mul_of_nonneg_right le scale_pos.le
  rcases highEnd_below less with apart | ⟨near, odd⟩
  · have : (x.highEnd : ℚ) < y.lowEnd := by exact_mod_cast apart
    linarith
  · have : (x.highEnd : ℚ) ≤ y.lowEnd := by exact_mod_cast near
    rcases odd with odd | odd
    · rw [RoundedFrom, if_neg (by omega)] at hx
      linarith [hx.2]
    · rw [RoundedFrom, if_neg (by omega)] at hy
      linarith [hy.1]

theorem eq_of_roundedFrom {x y : Double} {q : ℚ} (hx : x.RoundedFrom q) (hy : y.RoundedFrom q)
    (signs : x.negative = y.negative) : x = y := by
  have first := not_less_of_roundedFrom hx hy le_rfl
  have second := not_less_of_roundedFrom hy hx le_rfl
  exact eq_of_parts (by omega) (by omega) signs

theorem roundedFrom_exact (x : Double) : x.RoundedFrom (Decimal.exact x).value := by
  have powers (n k : Nat) (a : ℚ) : a * 5 ^ n * 10 ^ (-(n : Int)) * 2 ^ (n + k) = a * 2 ^ k := by
    have ten : (10 : ℚ) ^ n = 5 ^ n * 2 ^ n := by rw [← mul_pow]; norm_num
    rw [zpow_neg, zpow_natCast, ten, pow_add]
    field_simp
  have middle : (Decimal.exact x).value * scale = ((4 * x.significand * 2 ^ x.unit : ℕ) : ℚ) := by
    have quarters := powers 1074 2 (x.magnitude : ℚ)
    rw [Decimal.value, Decimal.exact, scale]
    simp only [Nat.pow_eq, Nat.cast_mul, Nat.cast_pow, Nat.cast_ofNat, magnitude,
      Nat.shiftLeft_eq] at quarters ⊢
    refine quarters.trans ?_
    ring
  unfold RoundedFrom lowEnd highEnd
  rw [middle]
  have unit := Nat.one_le_two_pow (n := x.unit)
  split
  · constructor
    · exact_mod_cast Nat.mul_le_mul_right _ (by omega)
    · exact_mod_cast Nat.mul_le_mul_right _ (by omega)
  · constructor
    · exact_mod_cast Nat.mul_lt_mul_of_pos_right (by split <;> omega) unit
    · exact_mod_cast Nat.mul_lt_mul_of_pos_right (by omega) unit

theorem roundedFrom_shortest (x : Double) (tie : Tie) :
    x.RoundedFrom (Decimal.shortest x tie).value := by
  rw [Decimal.shortest, Decimal.value_trimmed]
  cases found : Decimal.search (Decimal.interval x) tie 24
      (((Decimal.interval x).high.log2 - (Decimal.interval x).denominator.log2) * 30103 / 100000 + 2) with
  | none => exact roundedFrom_exact x
  | some d => exact contains_interval_iff.mp (Decimal.contains_of_search _ _ found)

end Double

namespace Numeral

theorem value_concat (l m : List Nat) : value (l ++ m) = value l * 10 ^ m.length + value m := by
  induction m using List.reverseRecOn with
  | nil => simp [value]
  | append_singleton m d ih =>
    rw [← List.append_assoc, value_append, ih, value_append, List.length_append,
      List.length_singleton, Nat.pow_succ]
    ring

theorem value_zeros (n : Nat) : value (List.replicate n 0) = 0 := by
  induction n with
  | zero => rfl
  | succ n ih => rw [List.replicate_succ', value_append, ih]

def shift (n : Numeral) : Int :=
  match n.exponent with
  | none => 0
  | some (down, digits) => if down then -(value digits : Int) else value digits

def significand (n : Numeral) : Nat := value (n.whole ++ n.fraction.getD [])

def power (n : Numeral) : Int := n.shift - (n.fraction.getD []).length

def magnitude (n : Numeral) : ℚ :=
  value (n.whole ++ n.fraction.getD []) * 10 ^ (n.shift - (n.fraction.getD []).length)

theorem magnitude_eq (n : Numeral) : n.magnitude = n.significand * 10 ^ n.power := rfl

end Numeral

namespace Layout

open Numeral

/-- A numeral shows the digits and the exponent of a decimal, or else the whole number that it is
with a zero behind the point. -/
inductive Shows (m : Numeral) (n : Nat) (exponent : Int) : Prop where
  | plain (digits : m.significand = n) (power : m.power = exponent)
  | whole (k : Nat) (up : exponent = k) (digits : m.significand = n * 10 ^ (k + 1))
    (power : m.power = -1)

theorem Shows.magnitude {m : Numeral} {n : Nat} {exponent : Int} (shows : Shows m n exponent) :
    m.magnitude = n * 10 ^ exponent := by
  rw [magnitude_eq]
  cases shows with
  | plain digits power => rw [digits, power]
  | whole k up digits power =>
    rw [digits, power, up, zpow_natCast]
    push_cast
    norm_num
    ring

theorem shows_placed (negative : Bool) (n : Nat) (exponent : Int) :
    Shows (placed negative (digitsOf n) (exponent + (digitsOf n).length)) n exponent := by
  unfold placed
  split
  · rename_i h
    obtain ⟨k, hk⟩ : ∃ k : Nat, exponent = k := ⟨exponent.toNat, by omega⟩
    subst hk
    have size : ((k : Int) + (digitsOf n).length).toNat - (digitsOf n).length = k := by omega
    have digits : value (digitsOf n ++ List.replicate k 0 ++ [0]) = n * 10 ^ k * 10 := by
      rw [value_append, value_concat, value_zeros, value_digitsOf, List.length_replicate,
        Nat.add_zero, Nat.add_zero]
    apply Shows.whole k rfl
    · simp only [significand, size, Option.getD_some, digits, Nat.pow_succ, Nat.mul_assoc]
    · simp [power, shift]
  · apply Shows.plain
    · split
      · simp only [significand, Option.getD_some, List.take_append_drop, value_digitsOf]
      · have digits (k : Nat) : value ([0] ++ (List.replicate k 0 ++ digitsOf n)) = n := by
          rw [value_concat, value_concat, value_zeros, value_digitsOf]
          simp [value]
        exact digits _
    · split
      · simp only [power, shift, Option.getD_some, List.length_drop]
        omega
      · simp only [power, shift, Option.getD_some, List.length_append, List.length_replicate]
        omega

theorem shift_digitsOf (first : Int) : (if decide (first < 0) then
    -(value (digitsOf first.natAbs) : Int) else value (digitsOf first.natAbs)) = first := by
  rw [value_digitsOf]
  by_cases h : first < 0
  · rw [decide_eq_true h, if_pos rfl]
    omega
  · rw [decide_eq_false h, if_neg Bool.false_ne_true]
    omega

theorem significand_pointed (negative : Bool) (n : Nat) (first : Int) :
    (pointed negative (digitsOf n) first).significand = n := by
  unfold pointed significand
  split
  · rename_i single
    rw [List.take_of_length_le single, Option.getD_none, List.append_nil, value_digitsOf]
  · rw [Option.getD_some, List.take_append_drop, value_digitsOf]

theorem power_pointed (negative : Bool) (n : Nat) (exponent : Int) :
    (pointed negative (digitsOf n) (exponent + (digitsOf n).length - 1)).power = exponent := by
  have positive := List.length_pos_iff.mpr (digitsOf_ne_nil n)
  simp only [pointed, power, shift, shift_digitsOf]
  split
  · rw [Option.getD_none, List.length_nil]
    omega
  · rw [Option.getD_some, List.length_drop]
    omega

theorem shows_numeralOf (negative : Bool) (d : Decimal) :
    Shows (numeralOf negative d) d.digits d.exponent := by
  unfold numeralOf
  split
  · rw [Int.sub_add_cancel]
    exact shows_placed negative d.digits d.exponent
  · exact .plain (significand_pointed negative d.digits _) (power_pointed negative d.digits d.exponent)

theorem magnitude_numeralOf (negative : Bool) (d : Decimal) :
    (numeralOf negative d).magnitude = d.value :=
  (shows_numeralOf negative d).magnitude

theorem numeral_of_isZero {x : Double} (zero : x.isZero = true) :
    numeral x = ⟨x.negative, [0], some [0], none⟩ := by
  rw [numeral, if_pos zero]

theorem numeral_of_not_isZero {x : Double} (nonzero : x.isZero = false) :
    numeral x = numeralOf x.negative (Decimal.shortest x .toEven) := by
  rw [numeral, if_neg (Bool.eq_false_iff.mp nonzero)]

theorem negative_numeral (x : Double) : (numeral x).negative = x.negative := by
  unfold numeral
  split
  · rfl
  · exact negative_numeralOf _ _

theorem magnitude_numeral_of_not_isZero {x : Double} (nonzero : x.isZero = false) :
    (numeral x).magnitude = (Decimal.shortest x .toEven).value := by
  rw [numeral_of_not_isZero nonzero, magnitude_numeralOf]

theorem magnitude_numeral_eq_zero_iff {x : Double} :
    (numeral x).magnitude = 0 ↔ x.isZero = true := by
  cases zero : x.isZero with
  | true =>
    rw [numeral_of_isZero zero]
    simp [magnitude, value]
  | false =>
    have digits := Decimal.shortest_pos zero .toEven
    have positive : 0 < (Decimal.shortest x .toEven).value := by
      unfold Decimal.value
      positivity
    rw [magnitude_numeral_of_not_isZero zero]
    simp [positive.ne']

/-- The numeral of a floating-point number has a fraction or an exponent. -/
theorem numeral_not_whole (x : Double) :
    (numeral x).fraction.isSome = true ∨ (numeral x).exponent.isSome = true := by
  cases zero : x.isZero with
  | true =>
    rw [numeral_of_isZero zero]
    exact .inl rfl
  | false =>
    rw [numeral_of_not_isZero zero, numeralOf]
    split
    · refine .inl ?_
      unfold placed
      split
      · rfl
      · split <;> rfl
    · exact .inr rfl

theorem numeral_inj {x y : Double} (h : numeral x = numeral y) : x = y := by
  have signs : x.negative = y.negative := by
    rw [← negative_numeral, h, negative_numeral]
  have zeros : x.isZero = y.isZero := by
    rw [Bool.eq_iff_iff, ← magnitude_numeral_eq_zero_iff, h, magnitude_numeral_eq_zero_iff]
  cases zero : y.isZero with
  | true =>
    rw [zero] at zeros
    simp only [Double.isZero, Bool.and_eq_true, beq_iff_eq] at zero zeros
    obtain ⟨negative, exponent, fraction⟩ := x
    obtain ⟨negative', exponent', fraction'⟩ := y
    simp only [Double.mk.injEq]
    exact ⟨signs, Fin.ext (zeros.1.trans zero.1.symm), Fin.ext (zeros.2.trans zero.2.symm)⟩
  | false =>
    rw [zero] at zeros
    have near := y.roundedFrom_shortest .toEven
    rw [← magnitude_numeral_of_not_isZero zero, ← h, magnitude_numeral_of_not_isZero zeros] at near
    exact Double.eq_of_roundedFrom (x.roundedFrom_shortest .toEven) near signs

end Layout

namespace Numeral

open Json.Machine

theorem chars_inj {m n : Numeral} (hm : m.Proper) (hn : n.Proper) (h : m.chars = n.chars) :
    m = n := by
  have same : begun m = begun n := by
    have read := foldl_numeral (numeralText_chars hm) []
    rw [h, foldl_numeral (numeralText_chars hn) []] at read
    simpa using read.symm
  obtain ⟨negative, whole, fraction, exponent⟩ := m
  obtain ⟨negative', whole', fraction', exponent'⟩ := n
  simp only [begun, Json.Begun.mk.injEq, List.reverse_inj] at same
  obtain ⟨_, rfl, rfl, fractions, exponents⟩ := same
  have turned : Function.Injective (List.reverse : List Nat → List Nat) := List.reverse_injective
  have pairs : Function.Injective fun e : Bool × List Nat => (e.1, e.2.reverse) := by
    rintro ⟨down, digits⟩ ⟨down', digits'⟩ equal
    simpa using equal
  rw [Option.map_injective turned fractions, Option.map_injective pairs exponents]

end Numeral

namespace Number

open Numeral

theorem numeral_inj {m n : Number} (h : m.numeral = n.numeral) : m = n := by
  cases m with
  | int i =>
    cases n with
    | int j =>
      simp only [numeral, mk.injEq, decide_eq_decide, and_true] at h
      have sizes : i.natAbs = j.natAbs := by
        rw [← value_digitsOf i.natAbs, h.2, value_digitsOf]
      have : i = j := by omega
      rw [this]
    | float y =>
      have parts := Layout.numeral_not_whole y
      rw [show Layout.numeral y = _ from h.symm] at parts
      simp [numeral] at parts
  | float x =>
    cases n with
    | int j =>
      have parts := Layout.numeral_not_whole x
      rw [show Layout.numeral x = _ from h] at parts
      simp [numeral] at parts
    | float y => rw [Layout.numeral_inj h]

/-- Different numbers are written differently: integers, floating-point numbers, and one of each. -/
theorem text_inj {m n : Number} : m.text = n.text ↔ m = n := by
  constructor
  · intro h
    apply numeral_inj
    apply chars_inj m.proper_numeral n.proper_numeral
    rw [← text_eq_chars, h, text_eq_chars]
  · rintro rfl
    rfl

end Number

end GridSweep
