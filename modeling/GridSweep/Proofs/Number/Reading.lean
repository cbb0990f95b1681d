import GridSweep.Proofs.Number.Digits

/-!
How the numeral of a number is read. Its digits and its exponent are not cut off, so that the reading is
one product or quotient by a power of ten, in which the digits have been rounded before and the power
may have been (`Numeral.floating_of_small`, `Double.floating_numeral`). A number is read back just when
the exact result of that operation rounds to it (`Double.ReadAs.eq_iff`), as it does for numbers of
few digits (`Double.Short.survives`).
-/
namespace GridSweep

open Double

namespace Numeral

/-- Neither the digits nor the exponent of the numeral are cut off when it is read. -/
structure Small (n : Numeral) : Prop where
  digits : n.significand < 0x10000000000000000
  exponent : ∀ e, n.exponent = some e → value e.2 < 0x80000000

theorem value_whole_le (n : Numeral) : value n.whole ≤ n.significand := by
  rw [significand, value, value, List.foldl_append]
  exact le_foldl_digits _ _

theorem floating_of_small {n : Numeral} (small : n.Small) :
    n.floating = (scale n.significand n.power).map fun x => if n.negative then x.negate else x := by
  have whole : fitting 0x10000000000000000 0 n.whole = (value n.whole, []) :=
    fitting_of_lt n.whole 0 (n.value_whole_le.trans_lt small.digits)
  have folded : (n.fraction.getD []).foldl (fun v d => v * 10 + d) (value n.whole) =
      n.significand := by
    rw [significand, value, value, List.foldl_append]
  have fraction : fitting 0x10000000000000000 (value n.whole) (n.fraction.getD []) =
      (n.significand, []) := by
    rw [fitting_of_lt _ _ (folded.trans_lt small.digits), folded]
  have start : ((([] : List Nat).length : Int) -
      (((n.fraction.getD []).length - ([] : List Nat).length : Nat) : Int)) =
      -(n.fraction.getD []).length := by
    simp
  unfold floating
  simp only [whole, fraction, start]
  cases h : n.exponent with
  | none => simp only [power, shift, h, Int.zero_sub]
  | some e =>
    obtain ⟨down, digits⟩ := e
    have fits : exponentValue digits = some (value digits) := by
      have fitted : fitting 0x80000000 0 digits = (value digits, []) :=
        fitting_of_lt digits 0 (small.exponent _ h)
      rw [exponentValue, fitted]
    simp only [power, shift, h, fits]
    congr 2
    split <;> omega

variable {k : Nat}

theorem roundedFrom_powerOfTen (small : k ≤ mostTens) :
    (powerOfTen k).RoundedFrom (Nat.pow 10 k : ℕ) :=
  roundedFrom_ofNat (Nat.pow_le_pow_right (by decide) small)

theorem size_powerOfTen_le {j : Nat} (le : j ≤ k) (small : k ≤ mostTens) :
    (powerOfTen j).size ≤ (powerOfTen k).size := by
  apply size_le_of_roundedFrom (roundedFrom_powerOfTen (le.trans small)) (roundedFrom_powerOfTen small)
  exact_mod_cast Nat.pow_le_pow_right (by decide) le

theorem one_le_size_powerOfTen (small : k ≤ mostTens) : 1 ≤ (powerOfTen k).size := by
  have order := size_powerOfTen_le (Nat.zero_le k) small
  rwa [size_powerOfTen (Nat.zero_le 22), pow_zero] at order

theorem significand_powerOfTen_pos (small : k ≤ mostTens) : 0 < (powerOfTen k).significand := by
  by_contra zero
  have none : (powerOfTen k).size = 0 := by
    rw [size, Double.magnitude_eq, Nat.eq_zero_of_not_pos zero]
    simp
  have := one_le_size_powerOfTen small
  linarith

end Numeral

namespace Double

open Numeral

theorem size_mul_scale (x : Double) : x.size * Double.scale = (4 * x.magnitude : ℕ) := by
  have steps : (grain : ℚ) ≠ 0 := by exact_mod_cast grain_pos.ne'
  rw [size, scale_eq]
  push_cast
  field_simp

theorem unit_le_of_isFinite {x : Double} (finite : x.isFinite = true) : x.unit ≤ lastUnit := by
  have := x.exponent.isLt
  simp only [isFinite, bne_iff_ne] at finite
  unfold unit lastUnit
  omega

theorem size_lt_overflow {x : Double} (finite : x.isFinite = true) :
    x.size * Double.scale < overflow := by
  have few := x.significand_lt
  have below : 4 * x.magnitude < overflow := by
    rw [Double.magnitude_eq, ← Nat.mul_assoc]
    calc 4 * x.significand * 2 ^ x.unit ≤ (2 ^ 55 - 4) * 2 ^ lastUnit :=
          Nat.mul_le_mul (by omega) (Nat.pow_le_pow_right Nat.two_pos (unit_le_of_isFinite finite))
      _ < overflow := Nat.mul_lt_mul_of_pos_right (by omega) (Nat.two_pow_pos lastUnit)
  rw [size_mul_scale]
  exact_mod_cast below

theorem isFinite_div {x : Double} {k : Nat} (finite : x.isFinite = true) (small : k ≤ mostTens) :
    (x.div (powerOfTen k)).isFinite = true := by
  apply (isFinite_div_iff (significand_powerOfTen_pos small)).mpr
  have smaller : x.size / (powerOfTen k).size ≤ x.size :=
    div_le_self x.size_nonneg (one_le_size_powerOfTen small)
  exact (mul_le_mul_of_nonneg_right smaller scale_pos.le).trans_lt (size_lt_overflow finite)

end Double

namespace Numeral

/-- The exact result of the last operation by which a numeral of these digits and this power of ten
is read. -/
def operated (digits : Nat) (power : Int) : ℚ :=
  if 0 ≤ power then (ofNat digits).size * (powerOfTen power.toNat).size
  else if -308 ≤ power then (ofNat digits).size / (powerOfTen (-power).toNat).size
  else ((ofNat digits).div (powerOfTen 308)).size / (powerOfTen (-power - 308).toNat).size

/-- A number without a sign that the exact value rounds to. -/
structure Rounded (y : Double) (q : ℚ) : Prop where
  finite : y.isFinite = true
  positive : y.negative = false
  rounded : y.RoundedFrom q

theorem Rounded.div {y : Double} {k : Nat} (finite : y.isFinite = true) (positive : y.negative = false)
    (small : k ≤ mostTens) : Rounded (y.div (powerOfTen k)) (y.size / (powerOfTen k).size) where
  finite := isFinite_div finite small
  positive := by
    have power : (powerOfTen k).negative = false := negative_ofRatio _ _ _
    rw [Double.div, ofScaled, negative_ofRatio, positive, power]
    rfl
  rounded := roundedFrom_div (significand_powerOfTen_pos small) (isFinite_div finite small)

theorem Rounded.ofNat {n : Nat} (fits : n ≤ Nat.pow 10 mostTens) : Rounded (ofNat n) n where
  finite := isFinite_ofNat fits
  positive := negative_ofRatio _ _ _
  rounded := roundedFrom_ofNat fits

theorem Rounded.mul {m k : Nat} (finite : ((Double.ofNat m).mul (powerOfTen k)).isFinite = true) :
    Rounded ((Double.ofNat m).mul (powerOfTen k))
      ((Double.ofNat m).size * (powerOfTen k).size) where
  finite := finite
  positive := by
    have left : (Double.ofNat m).negative = false := negative_ofRatio _ _ _
    have right : (powerOfTen k).negative = false := negative_ofRatio _ _ _
    rw [Double.mul, ofScaled, negative_ofRatio, left, right]
    rfl
  rounded := roundedFrom_mul finite

theorem scale_rounded {m : Nat} {e : Int} (few : m < 0x10000000000000000) (low : leastExponent ≤ e)
    (high : e ≤ mostExponent)
    (fits : 0 ≤ e → ((Double.ofNat m).mul (powerOfTen e.toNat)).isFinite = true) :
    ∃ y, scale m e = some y ∧ Rounded y (operated m e) := by
  have digits : Rounded (Double.ofNat m) m := by
    apply Rounded.ofNat
    exact few.le.trans (by decide +kernel)
  unfold leastExponent at low
  unfold mostExponent at high
  have tens : mostTens = 308 := by unfold mostTens; rfl
  unfold scale operated
  simp only
  rw [if_neg (by omega)]
  by_cases up : 0 ≤ e
  · rw [if_pos up, if_pos up, if_pos (fits up)]
    exact ⟨_, rfl, Rounded.mul (fits up)⟩
  · rw [if_neg up, if_neg up]
    by_cases once : -308 ≤ e
    · rw [if_pos once, if_pos once]
      exact ⟨_, rfl, Rounded.div digits.finite digits.positive (by omega)⟩
    · have first := Rounded.div (k := 308) digits.finite digits.positive tens.ge
      rw [if_neg once, if_neg once, if_pos (by omega)]
      exact ⟨_, rfl, Rounded.div first.finite first.positive (by omega)⟩

theorem isFinite_mul_of_le {m m' j k : Nat} (le : m ≤ m') (few : m' < 0x10000000000000000)
    (powers : j ≤ k) (small : k ≤ mostTens)
    (finite : ((Double.ofNat m').mul (powerOfTen k)).isFinite = true) :
    ((Double.ofNat m).mul (powerOfTen j)).isFinite = true := by
  have wide : 0x10000000000000000 ≤ Nat.pow 10 mostTens := by decide +kernel
  have digits : (Double.ofNat m).size ≤ (Double.ofNat m').size := by
    apply size_le_of_roundedFrom (roundedFrom_ofNat (le.trans (few.le.trans wide)))
      (roundedFrom_ofNat (few.le.trans wide))
    exact_mod_cast le
  have product : (Double.ofNat m).size * (powerOfTen j).size ≤
      (Double.ofNat m').size * (powerOfTen k).size :=
    mul_le_mul digits (size_powerOfTen_le powers small) (powerOfTen j).size_nonneg
      (Double.ofNat m').size_nonneg
  rw [isFinite_mul_iff] at finite ⊢
  exact (mul_le_mul_of_nonneg_right product scale_pos.le).trans_lt finite

end Numeral

namespace Double

open Numeral

/-- The upper end of every number below the largest one, in quarters of the smallest step. -/
def ceiling : Nat := (2 ^ 55 - 6) * 2 ^ lastUnit

theorem highEnd_le_ceiling {x : Double} (finite : x.isFinite = true)
    (smaller : ¬(x.unit = lastUnit ∧ x.significand = 2 ^ 53 - 1)) : x.highEnd ≤ ceiling := by
  have few := x.significand_lt
  unfold highEnd ceiling
  rcases (unit_le_of_isFinite finite).lt_or_eq with below | last
  · calc (4 * x.significand + 2) * 2 ^ x.unit ≤ (2 ^ 54 - 1) * (2 * 2 ^ x.unit) := by
          rw [← Nat.mul_assoc]
          exact Nat.mul_le_mul_right _ (by omega)
      _ ≤ (2 ^ 55 - 6) * 2 ^ lastUnit := Nat.mul_le_mul (by omega) (two_mul_two_pow_le below)
  · rw [last]
    exact Nat.mul_le_mul_right _ (by omega)

/-- The largest whole number that, times this power of ten, rounds to a number below the largest one. -/
def mostDigits (k : Nat) : Nat := ceiling / (4 * grain * Nat.pow 10 k)

/-- Beyond these powers of ten the digits are bounded by the number, and not only by their count. -/
theorem isFinite_mostDigits : ∀ k < 18, mostDigits (291 + k) < 0x10000000000000000 ∧
    ((ofNat (mostDigits (291 + k))).mul (powerOfTen (291 + k))).isFinite = true := by
  decide +kernel

theorem isFinite_eighteenDigits : ((ofNat (10 * 2 ^ 55)).mul (powerOfTen 290)).isFinite = true := by
  decide +kernel

theorem isFinite_mul_of_le_ceiling {m k : Nat} (few : m < 10 * 2 ^ 55) (small : k ≤ mostTens)
    (inside : (m * 10 ^ k : ℚ) * Double.scale ≤ ceiling) :
    ((ofNat m).mul (powerOfTen k)).isFinite = true := by
  have tens : mostTens = 308 := by unfold mostTens; rfl
  by_cases low : k ≤ 290
  · exact isFinite_mul_of_le few.le (by decide) low (by omega) isFinite_eighteenDigits
  · obtain ⟨j, rfl⟩ : ∃ j, k = 291 + j := ⟨k - 291, by omega⟩
    obtain ⟨short, fits⟩ := isFinite_mostDigits j (by omega)
    have positive : 0 < 4 * grain * Nat.pow 10 (291 + j) :=
      Nat.mul_pos (Nat.mul_pos (by decide) grain_pos) (Nat.pow_pos (by decide))
    have le : m ≤ mostDigits (291 + j) := by
      apply (Nat.le_div_iff_mul_le positive).mpr
      rw [Nat.mul_comm (4 * grain), ← Nat.mul_assoc]
      rw [scale_eq] at inside
      exact_mod_cast inside
    exact isFinite_mul_of_le le short le_rfl small fits

def largest (negative : Bool) : Double := pack negative (2 ^ 53 - 1) lastUnit

theorem isFinite_largest (negative : Bool) :
    ((ofNat (Layout.numeral (largest negative)).significand).mul
      (powerOfTen (Layout.numeral (largest negative)).power.toNat)).isFinite = true := by
  cases negative <;> decide +kernel

theorem eq_largest {x : Double} (unit : x.unit = lastUnit) (significand : x.significand = 2 ^ 53 - 1) :
    x = largest x.negative := by
  obtain ⟨_, ones, last⟩ :=
    pack_of_fits x.negative (m := 2 ^ 53 - 1) (by decide) (.inl (by decide)) (le_refl lastUnit)
  exact eq_of_parts (unit.trans last.symm) (significand.trans ones.symm)
    (negative_pack x.negative _ _).symm

end Double

namespace Layout

open Numeral

theorem length_digitsOf_le_iff {n k : Nat} (positive : 0 < k) :
    (digitsOf n).length ≤ k ↔ n < 10 ^ k := by
  rw [length_digitsOf]
  exact Nat.length_toDigits_le_iff (by decide) positive

theorem exponent_placed (negative : Bool) (digits : List Nat) (point : Int) :
    (placed negative digits point).exponent = none := by
  unfold placed
  split
  · rfl
  · split <;> rfl

theorem le_of_positional {first : Int} (h : json.positional first = true) : first ≤ 15 := by
  simp only [positional, json, Option.all_some, Bool.and_eq_true, decide_eq_true_eq] at h
  exact h.2

theorem small_numeralOf (negative : Bool) {d : Decimal} (digits : d.digits < 10 * 2 ^ 55)
    (low : leastExponent ≤ d.exponent) (high : d.exponent ≤ mostExponent) :
    (numeralOf negative d).Small := by
  have count : (digitsOf d.digits).length ≤ 18 :=
    (length_digitsOf_le_iff (by decide)).mpr (by omega)
  have one : 0 < (digitsOf d.digits).length := List.length_pos_iff.mpr (digitsOf_ne_nil _)
  have bound := (length_digitsOf_le_iff one).mp le_rfl
  unfold leastExponent at low
  unfold mostExponent at high
  unfold numeralOf
  split
  · -- Sixteen digits at most stand before the point.
    rename_i positional
    have short := le_of_positional positional
    rw [Int.sub_add_cancel]
    constructor
    · cases shows_placed negative d.digits d.exponent with
      | plain shown _ => omega
      | whole k up shown _ =>
        rw [shown]
        calc d.digits * 10 ^ (k + 1)
            < 10 ^ (digitsOf d.digits).length * 10 ^ (k + 1) :=
              Nat.mul_lt_mul_of_pos_right bound (Nat.pow_pos (by decide))
          _ = 10 ^ ((digitsOf d.digits).length + (k + 1)) := (Nat.pow_add _ _ _).symm
          _ ≤ 10 ^ 17 := Nat.pow_le_pow_right (by decide) (by omega)
          _ < 0x10000000000000000 := by decide
    · intro e he
      rw [exponent_placed] at he
      cases he
  · constructor
    · rw [significand_pointed]
      omega
    · rintro _ ⟨⟩
      rw [value_digitsOf]
      omega

theorem small_numeral (x : Double) : (numeral x).Small := by
  cases zero : x.isZero with
  | true =>
    rw [numeral_of_isZero zero]
    exact ⟨by simp [Numeral.significand, value], fun e he => nomatch he⟩
  | false =>
    rw [numeral_of_not_isZero zero]
    exact small_numeralOf _ (Decimal.shortest_digits_lt zero .toEven)
      (Decimal.le_shortest_exponent zero .toEven) (Decimal.shortest_exponent_le zero .toEven)

theorem power_bounds (x : Double) :
    leastExponent ≤ (numeral x).power ∧ (numeral x).power ≤ mostExponent := by
  cases zero : x.isZero with
  | true =>
    rw [numeral_of_isZero zero]
    exact ⟨by simp [power, shift, leastExponent], by simp [power, shift, mostExponent]⟩
  | false =>
    rw [numeral_of_not_isZero zero]
    have low := Decimal.le_shortest_exponent zero .toEven
    have high := Decimal.shortest_exponent_le zero .toEven
    cases shows_numeralOf x.negative (Decimal.shortest x .toEven) with
    | plain _ power => exact ⟨power.symm ▸ low, power.symm ▸ high⟩
    | whole _ _ _ power =>
      rw [power]
      exact ⟨by decide, by decide⟩

theorem isFinite_product {x : Double} (finite : x.isFinite = true) (up : 0 ≤ (numeral x).power) :
    ((Double.ofNat (numeral x).significand).mul (powerOfTen (numeral x).power.toNat)).isFinite =
      true := by
  by_cases last : x.unit = lastUnit ∧ x.significand = 2 ^ 53 - 1
  · rw [eq_largest last.1 last.2]
    exact isFinite_largest x.negative
  · cases zero : x.isZero with
    | true =>
      have down : (numeral x).power = -1 := by
        rw [numeral_of_isZero zero]
        rfl
      omega
    | false =>
      have few := Decimal.shortest_digits_lt zero .toEven
      have high := Decimal.shortest_exponent_le zero .toEven
      have inside := (le_highEnd (x.roundedFrom_shortest .toEven)).trans
        (Nat.cast_le.mpr (highEnd_le_ceiling finite last))
      rw [Decimal.value] at inside
      rw [numeral_of_not_isZero zero] at up ⊢
      cases shows_numeralOf x.negative (Decimal.shortest x .toEven) with
      | whole k _ _ power => omega
      | plain digits power =>
        rw [power] at up
        rw [digits, power]
        generalize (Decimal.shortest x .toEven).exponent = e at *
        obtain ⟨k, rfl⟩ := Int.eq_ofNat_of_zero_le up
        rw [zpow_natCast] at inside
        apply isFinite_mul_of_le_ceiling few _ inside
        unfold mostExponent at high
        unfold mostTens
        omega

end Layout

namespace Double

open Numeral Layout

variable {x y : Double}

/-- A number that another is read as when it has been written: of the same sign, and rounded from the
exact result of the last operation of the reading. -/
structure ReadAs (x y : Double) : Prop where
  finite : y.isFinite = true
  sign : y.negative = x.negative
  rounded : y.RoundedFrom (operated (numeral x).significand (numeral x).power)

/-- The exact result of the last operation by which the text of the number is read rounds to it. -/
def Survives (x : Double) : Prop :=
  x.RoundedFrom (operated (numeral x).significand (numeral x).power)

theorem ReadAs.unique {z : Double} (hy : x.ReadAs y) (hz : x.ReadAs z) : y = z :=
  eq_of_roundedFrom hy.rounded hz.rounded (hy.sign.trans hz.sign.symm)

theorem ReadAs.eq_iff (read : x.ReadAs y) : y = x ↔ x.Survives := by
  constructor
  · rintro rfl
    exact read.rounded
  · intro survives
    exact eq_of_roundedFrom read.rounded survives read.sign

theorem floating_numeral (finite : x.isFinite = true) :
    ∃ y, (numeral x).floating = some y ∧ x.ReadAs y := by
  have small := small_numeral x
  obtain ⟨low, high⟩ := power_bounds x
  obtain ⟨y, scaled, inside, positive, rounded⟩ :=
    scale_rounded small.digits low high (isFinite_product finite)
  have read := floating_of_small small
  rw [scaled, negative_numeral, Option.map_some] at read
  cases sign : x.negative with
  | false =>
    rw [sign] at read
    exact ⟨y, read, inside, positive.trans sign.symm, rounded⟩
  | true =>
    rw [sign] at read
    refine ⟨y.negate, read, inside, ?_, rounded⟩
    rw [negate, positive, sign]
    rfl

theorem roundedFrom_of_isZero (zero : x.isZero = true) : x.RoundedFrom 0 := by
  simp only [isZero, Bool.and_eq_true, beq_iff_eq] at zero
  have none : x.significand = 0 := by rw [significand, if_pos zero.1, zero.2]
  unfold RoundedFrom lowEnd highEnd
  simp [none]

theorem roundedFrom_magnitude (x : Double) : x.RoundedFrom (numeral x).magnitude := by
  cases zero : x.isZero with
  | true =>
    rw [magnitude_numeral_eq_zero_iff.mpr zero]
    exact roundedFrom_of_isZero zero
  | false =>
    rw [magnitude_numeral_of_not_isZero zero]
    exact x.roundedFrom_shortest .toEven

theorem operated_of_short {m : Nat} {e : Int} (few : m ≤ 2 ^ 53) (low : -22 ≤ e) (high : e ≤ 22) :
    operated m e = m * 10 ^ e := by
  unfold operated
  split
  · obtain ⟨k, rfl⟩ := Int.eq_ofNat_of_zero_le ‹0 ≤ e›
    rw [size_ofNat few, Int.toNat_natCast, size_powerOfTen (by omega), zpow_natCast]
  · rw [if_pos (by omega), size_ofNat few, size_powerOfTen (by omega)]
    obtain ⟨k, hk⟩ : ∃ k : Nat, e = -(k : Int) := ⟨(-e).toNat, by omega⟩
    rw [hk, neg_neg, Int.toNat_natCast, zpow_neg, zpow_natCast, div_eq_mul_inv]

/-- The number is written with digits that are represented exactly, and a power of ten that is. -/
structure Short (x : Double) : Prop where
  digits : (numeral x).significand ≤ 2 ^ 53
  low : -22 ≤ (numeral x).power
  high : (numeral x).power ≤ 22

theorem Short.survives (short : x.Short) : x.Survives := by
  rw [Survives, operated_of_short short.digits short.low short.high]
  exact x.roundedFrom_magnitude

end Double

end GridSweep
