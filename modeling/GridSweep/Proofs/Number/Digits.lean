import GridSweep.Proofs.Number.Rounding

namespace GridSweep

namespace Decimal

/-- A power of ten is compared in whole numbers on the side where its exponent is not negative. -/
theorem ten_zpow_eq (e : Int) : (10 : ℚ) ^ e = 10 ^ e.toNat / 10 ^ (-e).toNat := by
  rcases Int.le_total 0 e with up | down
  · obtain ⟨n, rfl⟩ := Int.eq_ofNat_of_zero_le up
    simp
  · obtain ⟨n, hn⟩ : ∃ n : Nat, e = -(n : Int) := ⟨(-e).toNat, by omega⟩
    subst hn
    simp

theorem mul_ten_zpow_le_iff (a b : Nat) (e : Int) :
    (a : ℚ) * 10 ^ e ≤ b ↔ a * Nat.pow 10 e.toNat ≤ b * Nat.pow 10 (-e).toNat := by
  have ten : (0 : ℚ) < 10 ^ (-e).toNat := by positivity
  rw [ten_zpow_eq, ← mul_div_assoc, div_le_iff₀ ten]
  exact_mod_cast Iff.rfl

theorem le_mul_ten_zpow_iff (a b : Nat) (e : Int) :
    (b : ℚ) ≤ a * 10 ^ e ↔ b * Nat.pow 10 (-e).toNat ≤ a * Nat.pow 10 e.toNat := by
  have ten : (0 : ℚ) < 10 ^ (-e).toNat := by positivity
  rw [ten_zpow_eq, ← mul_div_assoc, le_div_iff₀ ten]
  exact_mod_cast Iff.rfl

namespace Interval

variable {i : Interval} {tie : Tie} {exponent : Int}

theorem nearest?_isSome (positive : 0 < i.denominator) (low : i.low + i.denominator ≤ i.middle)
    (high : i.middle < i.high) : (i.nearest? tie).isSome = true := by
  have floor : i.middle / i.denominator * i.denominator ≤ i.middle := Nat.div_mul_le_self _ _
  have next : i.middle < i.middle / i.denominator * i.denominator + i.denominator :=
    Nat.lt_div_mul_add positive
  have below : i.holds (i.middle / i.denominator * i.denominator) = true := by
    unfold holds
    split
    · simp only [Bool.and_eq_true, decide_eq_true_eq]
      omega
    · simp only [Bool.and_eq_true, decide_eq_true_eq]
      omega
  simp only [nearest?, below, Bool.true_and]
  split
  · split
    · rfl
    · split <;> rfl
  · rfl

/-- A step of this power of ten is no longer than the part of the interval below its middle. -/
def Fine (i : Interval) (exponent : Int) : Prop :=
  (10 : ℚ) ^ exponent * i.denominator ≤ i.middle - i.low

theorem hit_of_fine (positive : 0 < i.denominator) (high : i.middle < i.high)
    (fine : i.Fine exponent) : ((i.shift exponent).nearest? tie).isSome = true := by
  unfold Fine at fine
  rw [ten_zpow_eq] at fine
  unfold shift
  split
  · have down : (-exponent).toNat = 0 := by omega
    rw [down, pow_zero, div_one] at fine
    have whole : i.low + i.denominator * Nat.pow 10 exponent.toNat ≤ i.middle := by
      have : (i.low + i.denominator * 10 ^ exponent.toNat : ℚ) ≤ i.middle := by linarith
      exact_mod_cast this
    exact nearest?_isSome (Nat.mul_pos positive (Nat.pow_pos (by decide))) whole high
  · have up : exponent.toNat = 0 := by omega
    have ten : (0 : ℚ) < 10 ^ (-exponent).toNat := by positivity
    rw [up, pow_zero, div_mul_eq_mul_div, one_mul, div_le_iff₀ ten] at fine
    have whole : i.low * Nat.pow 10 (-exponent).toNat + i.denominator ≤
        i.middle * Nat.pow 10 (-exponent).toNat := by
      have : (i.low * 10 ^ (-exponent).toNat + i.denominator : ℚ) ≤
          i.middle * 10 ^ (-exponent).toNat := by linarith
      exact_mod_cast this
    exact nearest?_isSome positive whole (Nat.mul_lt_mul_of_pos_right high (Nat.pow_pos (by decide)))

end Interval

variable {i : Interval} {tie : Tie}

theorem search_isSome {n k : Nat} (inside : k < n) {exponent : Int}
    (hit : ((i.shift (exponent - k)).nearest? tie).isSome = true) :
    (search i tie n exponent).isSome = true := by
  induction n generalizing k exponent with
  | zero => omega
  | succ n ih =>
    rw [search]
    split
    · rfl
    · rename_i missed
      cases k with
      | zero =>
        rw [Nat.cast_zero, sub_zero, missed] at hit
        cases hit
      | succ k =>
        refine ih (k := k) (by omega) ?_
        rw [← hit]
        congr 3
        push_cast
        ring

/-- The search stops where it starts, or where the power of ten above has no multiple to offer. -/
theorem search_exponent {n : Nat} {exponent : Int} {d : Decimal}
    (found : search i tie n exponent = some d) :
    d.exponent = exponent ∨ (i.shift (d.exponent + 1)).nearest? tie = none := by
  induction n generalizing exponent with
  | zero => cases found
  | succ n ih =>
    rw [search] at found
    split at found
    · cases found
      exact .inl rfl
    · rename_i missed
      rcases ih found with start | above
      · refine .inr ?_
        rw [start, sub_add_cancel, missed]
      · exact .inr above

theorem trimmed_digits_le (n : Nat) (d : Decimal) : (trimmed n d).digits ≤ d.digits := by
  induction n generalizing d with
  | zero => exact le_rfl
  | succ n ih =>
    rw [trimmed]
    split
    · exact (ih _).trans (Nat.div_le_self _ _)
    · exact le_rfl

theorem le_trimmed_exponent (n : Nat) (d : Decimal) : d.exponent ≤ (trimmed n d).exponent := by
  induction n generalizing d with
  | zero => exact le_rfl
  | succ n ih =>
    rw [trimmed]
    split
    · have := ih ⟨d.digits / 10, d.exponent + 1⟩
      simp only at this
      omega
    · exact le_rfl

/-- The bits of every upper end are fewer. -/
def mostBits : Nat := 2101

/-- Where the search starts for numbers whose upper end has this many bits. -/
def start (bits : Nat) : Int := ((bits : Int) - 1076) * 30103 / 100000 + 2

theorem start_bounds : ∀ bits < mostBits,
    4 * Double.grain * 2 ^ 54 * Nat.pow 10 (start bits - 23).toNat ≤
        2 ^ bits * Nat.pow 10 (-(start bits - 23)).toNat ∧
      2 ^ (bits + 1) * Nat.pow 10 (-start bits).toNat ≤
        4 * Double.grain * Nat.pow 10 (start bits).toNat := by
  decide +kernel

end Decimal

namespace Double

open Decimal

variable {x : Double} {tie : Tie}

theorem unit_le (x : Double) : x.unit ≤ 2046 := by
  have := x.exponent.isLt
  unfold unit
  omega

theorem interval_eq (x : Double) : interval x =
    ⟨(4 * x.significand - if x.significand = 0x10000000000000 ∧ 0 < x.unit then 1 else 2) *
        2 ^ (x.unit - 1076), 4 * x.significand * 2 ^ (x.unit - 1076),
      (4 * x.significand + 2) * 2 ^ (x.unit - 1076), 2 ^ (1076 - x.unit),
      x.significand % 2 == 0⟩ := by
  have powers (k : Nat) : 1 <<< k = 2 ^ k := Nat.one_shiftLeft k
  unfold interval
  simp only [powers]

theorem denominator_pos (x : Double) : 0 < (interval x).denominator := by
  simp only [interval_eq]
  apply Nat.two_pow_pos

theorem middle_lt_high (x : Double) : (interval x).middle < (interval x).high := by
  simp only [interval_eq]
  apply Nat.mul_lt_mul_of_pos_right
  · omega
  · apply Nat.two_pow_pos

theorem low_add_le_middle (nonzero : 0 < x.significand) :
    (interval x).low + 2 ^ (x.unit - 1076) ≤ (interval x).middle := by
  simp only [interval_eq, ← Nat.succ_mul]
  apply Nat.mul_le_mul_right
  split <;> omega

theorem fine_interval (nonzero : 0 < x.significand) {exponent : Int}
    (le : (10 : ℚ) ^ exponent * scale ≤ 2 ^ x.unit) : (interval x).Fine exponent := by
  have powers : (2 : ℚ) ^ (x.unit - 1076) * scale = 2 ^ x.unit * 2 ^ (1076 - x.unit) := by
    have split (k : Nat) : (2 : ℚ) ^ (x.unit - k) * 2 ^ k = 2 ^ x.unit * 2 ^ (k - x.unit) := by
      exact_mod_cast two_pow_split x.unit k
    unfold scale
    exact split 1076
  have part : ((interval x).low + 2 ^ (x.unit - 1076) : ℚ) ≤ (interval x).middle := by
    exact_mod_cast low_add_le_middle nonzero
  have step : (10 : ℚ) ^ exponent * 2 ^ (1076 - x.unit) ≤ 2 ^ (x.unit - 1076) := by
    rw [← mul_le_mul_iff_of_pos_right scale_pos, powers, mul_right_comm]
    exact mul_le_mul_of_nonneg_right le (by positivity)
  have denominator : ((interval x).denominator : ℚ) = 2 ^ (1076 - x.unit) := by
    simp only [interval_eq]
    push_cast
    rfl
  unfold Interval.Fine
  rw [denominator]
  linarith

theorem log2_mul_two_pow {n : Nat} (nonzero : n ≠ 0) (k : Nat) :
    (n * 2 ^ k).log2 = n.log2 + k := by
  have power := Nat.two_pow_pos k
  rw [Nat.log2_eq_iff (Nat.mul_ne_zero nonzero power.ne'), Nat.pow_add, Nat.add_right_comm,
    Nat.pow_add]
  exact ⟨Nat.mul_le_mul_right _ (Nat.log2_self_le nonzero),
    Nat.mul_lt_mul_of_pos_right Nat.lt_log2_self power⟩

/-- One less than the number of bits of the upper end. -/
def bits (x : Double) : Nat := (4 * x.significand + 2).log2 + x.unit

theorem log2_interval (x : Double) :
    ((interval x).high.log2 : Int) - (interval x).denominator.log2 = (x.bits : Int) - 1076 := by
  have nonzero : 4 * x.significand + 2 ≠ 0 := by omega
  have high := log2_mul_two_pow nonzero (x.unit - 1076)
  have denominator : (2 ^ (1076 - x.unit)).log2 = 1076 - x.unit := Nat.log2_two_pow
  simp only [interval_eq, bits]
  rw [high, denominator]
  omega

theorem bits_lt (x : Double) : x.bits < mostBits := by
  have below := x.significand_lt
  have upper : (4 * x.significand + 2).log2 < 55 := (Nat.log2_lt (by omega)).mpr (by omega)
  have := x.unit_le
  unfold bits mostBits
  omega

theorem two_le_bits (nonzero : 0 < x.significand) : 2 ≤ x.bits := by
  have lower : 2 ^ 2 ≤ 4 * x.significand + 2 := by omega
  have := (Nat.le_log2 (by omega)).mpr lower
  unfold bits
  omega

theorem highEnd_lt (x : Double) : x.highEnd < 2 ^ (x.bits + 1) := by
  have below : 4 * x.significand + 2 < 2 ^ ((4 * x.significand + 2).log2 + 1) := Nat.lt_log2_self
  unfold highEnd bits
  rw [Nat.add_right_comm, Nat.pow_add 2 _ x.unit]
  exact Nat.mul_lt_mul_of_pos_right below (Nat.two_pow_pos _)

theorem two_pow_bits_le (x : Double) : 2 ^ x.bits ≤ 2 ^ 54 * 2 ^ x.unit := by
  have below := x.significand_lt
  have upper : (4 * x.significand + 2).log2 < 55 := (Nat.log2_lt (by omega)).mpr (by omega)
  unfold bits
  rw [Nat.pow_add]
  exact Nat.mul_le_mul_right _ (Nat.pow_le_pow_right Nat.two_pos (by omega))

def found (x : Double) (tie : Tie) : Option Decimal := search (interval x) tie 24 (start x.bits)

theorem shortest_eq (x : Double) (tie : Tie) :
    shortest x tie = Decimal.trimmed 400 ((x.found tie).getD (exact x)) := by
  rw [shortest, log2_interval]
  rfl

theorem found_isSome (nonzero : 0 < x.significand) (tie : Tie) : (x.found tie).isSome = true := by
  have small := (mul_ten_zpow_le_iff _ _ _).mpr (start_bounds x.bits x.bits_lt).1
  have fits : ((2 ^ x.bits : ℕ) : ℚ) ≤ (2 ^ 54 * 2 ^ x.unit : ℕ) := by
    exact_mod_cast x.two_pow_bits_le
  rw [Nat.cast_mul, ← scale_eq] at small
  apply search_isSome (k := 23) (by decide)
  apply Interval.hit_of_fine x.denominator_pos x.middle_lt_high
  apply fine_interval nonzero
  push_cast at small fits ⊢
  linarith

theorem not_fine_of_missed (nonzero : 0 < x.significand) {exponent : Int}
    (missed : ((interval x).shift exponent).nearest? tie = none) :
    (2 : ℚ) ^ x.unit < 10 ^ exponent * scale := by
  by_contra coarse
  have hit : (((interval x).shift exponent).nearest? tie).isSome = true :=
    Interval.hit_of_fine x.denominator_pos x.middle_lt_high
      (fine_interval nonzero (not_lt.mp coarse))
  rw [missed] at hit
  cases hit

theorem found_digits_lt (nonzero : 0 < x.significand) {d : Decimal} (h : x.found tie = some d) :
    d.digits < 10 * 2 ^ 55 := by
  have inside := le_highEnd (contains_interval_iff.mp (contains_of_search _ _ h))
  have step : 0 < (10 : ℚ) ^ d.exponent * scale := mul_pos (by positivity) scale_pos
  rw [Decimal.value, mul_assoc] at inside
  rcases search_exponent h with first | missed
  · -- The power of ten at the start exceeds the number.
    have large := (le_mul_ten_zpow_iff _ _ _).mpr (start_bounds x.bits x.bits_lt).2
    rw [← scale_eq, ← first, mul_comm scale] at large
    have below : (x.highEnd : ℚ) < (2 ^ (x.bits + 1) : ℕ) := by exact_mod_cast x.highEnd_lt
    have none : (d.digits : ℚ) * (10 ^ d.exponent * scale) < 1 * (10 ^ d.exponent * scale) := by
      linarith
    have : (d.digits : ℚ) < 1 := lt_of_mul_lt_mul_right none step.le
    have : d.digits < 1 := by exact_mod_cast this
    omega
  · -- The power of ten above is longer than a quarter step, and the number has 55 bits of those.
    have coarse := not_fine_of_missed nonzero missed
    rw [zpow_add_one₀ (by norm_num)] at coarse
    have top : x.highEnd ≤ 2 ^ 55 * 2 ^ x.unit := by
      have := x.significand_lt
      exact Nat.mul_le_mul_right _ (by omega)
    have top' : (x.highEnd : ℚ) ≤ 2 ^ 55 * 2 ^ x.unit := by exact_mod_cast top
    have few : (d.digits : ℚ) * (10 ^ d.exponent * scale) <
        10 * 2 ^ 55 * (10 ^ d.exponent * scale) := by
      linarith
    exact_mod_cast lt_of_mul_lt_mul_right few step.le

/-- The exponents of the decimals of the smallest and of the largest numbers. -/
def leastExponent : Int := -324

def mostExponent : Int := 308

theorem leastExponent_bound : (10 : ℚ) ^ leastExponent * scale ≤ 1 := by
  have least := (mul_ten_zpow_le_iff (4 * grain) 1 leastExponent).mpr (by decide +kernel)
  rwa [← scale_eq, Nat.cast_one, mul_comm] at least

theorem mostExponent_bound {n : Nat} (small : n ≤ mostBits) : (2 : ℚ) ^ n ≤ 10 ^ (mostExponent + 1) * scale := by
  have largest := (le_mul_ten_zpow_iff (4 * grain) (2 ^ mostBits) (mostExponent + 1)).mpr
    (by decide +kernel)
  have powers : (2 : ℚ) ^ n ≤ (2 ^ mostBits : ℕ) := by
    exact_mod_cast Nat.pow_le_pow_right Nat.two_pos small
  rw [← scale_eq, mul_comm] at largest
  exact powers.trans largest

theorem le_found_exponent (nonzero : 0 < x.significand) {d : Decimal} (h : x.found tie = some d) :
    leastExponent ≤ d.exponent := by
  rcases search_exponent h with first | missed
  · have := two_le_bits nonzero
    rw [first, start, leastExponent]
    omega
  · -- So small a power of ten fits into the interval of every number, and was not missed.
    by_contra low
    unfold leastExponent at low
    have coarse := not_fine_of_missed nonzero missed
    have power : (10 : ℚ) ^ (d.exponent + 1) ≤ 10 ^ leastExponent :=
      zpow_le_zpow_right₀ (by norm_num) (by unfold leastExponent; omega)
    have small : (2 : ℚ) ^ x.unit < 1 := calc
      (2 : ℚ) ^ x.unit < 10 ^ (d.exponent + 1) * scale := coarse
      _ ≤ 10 ^ leastExponent * scale := mul_le_mul_of_nonneg_right power scale_pos.le
      _ ≤ 1 := leastExponent_bound
    exact absurd (one_le_pow₀ (by norm_num)) small.not_ge

end Double

namespace Decimal

variable {x : Double}

/-- The decimal that is written has fewer than twenty digits. -/
theorem shortest_digits_lt (nonzero : x.isZero = false) (tie : Tie) :
    (shortest x tie).digits < 10 * 2 ^ 55 := by
  have positive := Double.significand_pos nonzero
  obtain ⟨d, hd⟩ := Option.isSome_iff_exists.mp (Double.found_isSome positive tie)
  rw [Double.shortest_eq, hd, Option.getD_some]
  exact (trimmed_digits_le 400 d).trans_lt (Double.found_digits_lt positive hd)

theorem le_shortest_exponent (nonzero : x.isZero = false) (tie : Tie) :
    Double.leastExponent ≤ (shortest x tie).exponent := by
  have positive := Double.significand_pos nonzero
  obtain ⟨d, hd⟩ := Option.isSome_iff_exists.mp (Double.found_isSome positive tie)
  rw [Double.shortest_eq, hd, Option.getD_some]
  exact (Double.le_found_exponent positive hd).trans (le_trimmed_exponent 400 d)

theorem shortest_exponent_le (nonzero : x.isZero = false) (tie : Tie) :
    (shortest x tie).exponent ≤ Double.mostExponent := by
  have inside := Double.le_highEnd (x.roundedFrom_shortest tie)
  have upper : (x.highEnd : ℚ) < 2 ^ (x.bits + 1) := by exact_mod_cast x.highEnd_lt
  have digits : (1 : ℚ) ≤ (shortest x tie).digits := by
    exact_mod_cast shortest_pos nonzero tie
  by_contra high
  have power : (10 : ℚ) ^ (Double.mostExponent + 1) ≤ 10 ^ (shortest x tie).exponent :=
    zpow_le_zpow_right₀ (by norm_num) (by omega)
  have least : (10 : ℚ) ^ (shortest x tie).exponent ≤ (shortest x tie).value :=
    le_mul_of_one_le_left (by positivity) digits
  have large : (2 : ℚ) ^ (x.bits + 1) ≤ x.highEnd := calc
    (2 : ℚ) ^ (x.bits + 1) ≤ 10 ^ (Double.mostExponent + 1) * Double.scale :=
      Double.mostExponent_bound x.bits_lt
    _ ≤ (shortest x tie).value * Double.scale :=
      mul_le_mul_of_nonneg_right (power.trans least) Double.scale_pos.le
    _ ≤ x.highEnd := inside
  exact absurd upper large.not_gt

end Decimal

end GridSweep
