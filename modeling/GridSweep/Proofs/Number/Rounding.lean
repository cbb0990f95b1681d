import GridSweep.Proofs.Number.Distinct

namespace GridSweep.Double

/-- The whole number lies nearest to the quotient, and strictly nearest when it is odd. -/
structure Nearest (num den q : Nat) : Prop where
  low : 2 * (q * den) ≤ 2 * num + den
  high : 2 * num ≤ 2 * (q * den) + den
  odd : q % 2 = 1 → 2 * (q * den) < 2 * num + den ∧ 2 * num < 2 * (q * den) + den

theorem nearest_nearestEven (num : Nat) {den : Nat} (positive : 0 < den) :
    Nearest num den (nearestEven num den) := by
  have whole : num / den * den + num % den = num := Nat.div_add_mod' num den
  have rest := Nat.mod_lt num positive
  have next : (num / den + 1) * den = num / den * den + den := Nat.succ_mul _ _
  unfold nearestEven
  simp only
  split
  · constructor <;> omega
  · split
    · constructor <;> omega
    · rcases Nat.mod_two_eq_zero_or_one (num / den) with even | odd
      · rw [even, Nat.add_zero]
        constructor <;> omega
      · rw [odd]
        constructor <;> omega

theorem nearestEven_of_dvd {num den : Nat} (positive : 0 < den) (whole : num % den = 0) :
    nearestEven num den * den = num := by
  have exact_ : num / den * den + num % den = num := Nat.div_add_mod' num den
  have low : 2 * (num % den) < den := by omega
  unfold nearestEven
  simp only [if_pos low]
  omega

/-- The unit at which the quotient has 53 bits, or the smallest one. -/
theorem unit_bounds (num : Nat) {den : Nat} (positive : 0 < den) :
    num < 2 ^ 53 * (den * 2 ^ ((num / den).log2 - 52)) ∧
      (0 < (num / den).log2 - 52 → 2 ^ 52 * (den * 2 ^ ((num / den).log2 - 52)) ≤ num) := by
  have split (k : Nat) : 2 ^ k * (den * 2 ^ ((num / den).log2 - 52)) =
      2 ^ (k + ((num / den).log2 - 52)) * den := by
    rw [Nat.pow_add, Nat.mul_comm den, Nat.mul_assoc]
  constructor
  · rw [split]
    apply (Nat.div_lt_iff_lt_mul positive).mp
    have below : num / den < 2 ^ ((num / den).log2 + 1) := Nat.lt_log2_self
    have wide : 2 ^ ((num / den).log2 + 1) ≤ 2 ^ (53 + ((num / den).log2 - 52)) :=
      Nat.pow_le_pow_right (by decide) (by omega)
    exact Nat.lt_of_lt_of_le below wide
  · intro normal
    rw [split]
    apply (Nat.le_div_iff_mul_le positive).mp
    have nonzero : num / den ≠ 0 := by
      intro zero
      simp [zero] at normal
    have exponent : 52 + ((num / den).log2 - 52) = (num / den).log2 := by omega
    rw [exponent]
    exact Nat.log2_self_le nonzero

def lower (significand unit : Nat) : Nat :=
  (4 * significand - if significand = 0x10000000000000 ∧ 0 < unit then 1 else 2) * 2 ^ unit

def upper (significand unit : Nat) : Nat := (4 * significand + 2) * 2 ^ unit

/-- The quotient lies between the ends of this significand and unit. -/
structure RoundsTo (num den significand unit : Nat) : Prop where
  low : lower significand unit * den ≤ 4 * num
  high : 4 * num ≤ upper significand unit * den
  odd : significand % 2 = 1 →
    lower significand unit * den < 4 * num ∧ 4 * num < upper significand unit * den

/-- How many of the smallest steps make one. -/
@[irreducible] def grain : Nat := 2 ^ 1074

theorem grain_pos : 0 < grain := by
  have positive (k : Nat) : 0 < 2 ^ k := Nat.two_pow_pos k
  unfold grain
  exact positive 1074

theorem shiftLeft_grain (n : Nat) : n <<< 1074 = n * grain := by
  have shifted (k : Nat) : n <<< k = n * 2 ^ k := Nat.shiftLeft_eq n k
  unfold grain
  exact shifted 1074

theorem ofRatio_parts (negative : Bool) (num : Nat) {den : Nat} (positive : 0 < den) :
    ∃ significand unit, ofRatio negative num den = pack negative significand unit ∧
      significand < 2 ^ 53 ∧ (2 ^ 52 ≤ significand ∨ unit = 0) ∧
      RoundsTo (num * grain) den significand unit := by
  unfold ofRatio
  simp only [shiftLeft_grain, Nat.shiftLeft_eq den]
  generalize num * grain = whole
  obtain ⟨below, normal⟩ := unit_bounds whole positive
  generalize (whole / den).log2 - 52 = unit at below normal ⊢
  have step : 0 < den * 2 ^ unit := Nat.mul_pos positive (Nat.two_pow_pos unit)
  obtain ⟨low, high, odd⟩ := nearest_nearestEven whole step
  generalize nearestEven whole (den * 2 ^ unit) = q at low high odd ⊢
  have scaled (n : Nat) : n * 2 ^ unit * den = n * (den * 2 ^ unit) := by
    rw [Nat.mul_assoc, Nat.mul_comm den]
  have doubled (n : Nat) : n * 2 ^ (unit + 1) * den = 2 * (n * (den * 2 ^ unit)) := by
    rw [Nat.pow_succ, ← Nat.mul_assoc, Nat.mul_right_comm, scaled, Nat.mul_comm]
  generalize den * 2 ^ unit = b at *
  -- Rounding does not leave the 53 bits, but for the power of two above them.
  have most : q ≤ 2 ^ 53 := by
    by_contra large
    have : (2 ^ 53 + 1) * b ≤ q * b := Nat.mul_le_mul_right b (by omega)
    omega
  have least (h : 0 < unit) : 2 ^ 52 ≤ q := by
    by_contra small
    have : q * b ≤ (2 ^ 52 - 1) * b := Nat.mul_le_mul_right b (by omega)
    have := normal h
    omega
  by_cases carry : q = 0x20000000000000
  · -- That power is the smallest significand of the next unit, with the same upper neighbour.
    subst carry
    refine ⟨0x10000000000000, unit + 1, if_pos rfl, by decide, .inl (by decide), ?_⟩
    have quarter : lower 0x10000000000000 (unit + 1) * den = 2 * (0x3fffffffffffff * b) := by
      rw [lower, doubled, if_pos ⟨rfl, Nat.succ_pos unit⟩]
    have half : upper 0x10000000000000 (unit + 1) * den = 2 * (0x40000000000002 * b) := by
      rw [upper, doubled]
    constructor <;> omega
  · refine ⟨q, unit, if_neg carry, by omega, (Nat.eq_zero_or_pos unit).symm.imp least id, ?_⟩
    have half : upper q unit * den = 4 * (q * b) + 2 * b := by
      rw [upper, scaled, Nat.add_mul, Nat.mul_assoc]
    by_cases edge : q = 0x10000000000000 ∧ 0 < unit
    · -- Below a power of two the interval is shorter, but the quotient is not below it.
      have floor := normal edge.2
      obtain rfl := edge.1
      have quarter : lower 0x10000000000000 unit * den = 0x3fffffffffffff * b := by
        rw [lower, scaled, if_pos edge]
      constructor <;> omega
    · have below : lower q unit * den = 4 * (q * b) - 2 * b := by
        rw [lower, scaled, if_neg edge, Nat.sub_mul, Nat.mul_assoc]
      have whole : q % 2 = 1 → b ≤ q * b := fun _ => Nat.le_mul_of_pos_left b (by omega)
      constructor <;> omega

def lastUnit : Nat := 2045

theorem isFinite_infinity (negative : Bool) : (infinity negative).isFinite = false := by
  simp [infinity, isFinite]

theorem pack_of_fits {m u : Nat} (negative : Bool) (fits : m < 2 ^ 53)
    (normal : 2 ^ 52 ≤ m ∨ u = 0) (inside : u ≤ lastUnit) :
    (pack negative m u).isFinite = true ∧ (pack negative m u).significand = m ∧
      (pack negative m u).unit = u := by
  unfold lastUnit at inside
  unfold pack
  split
  · refine ⟨?_, ?_, ?_⟩
    · simp [isFinite]
    · simp [significand]
    · simp [unit]
      omega
  · rw [dif_pos ⟨by omega, by omega⟩]
    refine ⟨?_, ?_, ?_⟩
    · simp [isFinite]
      omega
    · simp [significand]
      omega
    · simp [unit]

theorem pack_of_large {m u : Nat} (negative : Bool) (normal : 2 ^ 52 ≤ m) (large : lastUnit < u) :
    pack negative m u = infinity negative := by
  unfold lastUnit at large
  rw [pack, dif_neg (by omega), dif_neg (by omega)]

theorem negative_pack (negative : Bool) (m u : Nat) : (pack negative m u).negative = negative := by
  unfold pack
  split
  · rfl
  · split <;> rfl

theorem negative_ofRatio (negative : Bool) (num den : Nat) :
    (ofRatio negative num den).negative = negative := by
  unfold ofRatio
  simp only
  split
  · exact negative_pack _ _ _
  · exact negative_pack _ _ _

/-- The least value, in quarters of the smallest step, that is too large to round to a number. -/
def overflow : Nat := (2 ^ 55 - 2) * 2 ^ lastUnit

theorem RoundsTo.overflow_le {num den m u : Nat} (rounds : RoundsTo num den m u)
    (normal : 2 ^ 52 ≤ m) (large : lastUnit < u) : overflow * den ≤ 4 * num := by
  refine Nat.le_trans (Nat.mul_le_mul_right den ?_) rounds.low
  have powers : 2 ^ (lastUnit + 1) ≤ 2 ^ u := Nat.pow_le_pow_right (by decide) large
  have ends : 2 ^ 54 - 1 ≤ 4 * m - if m = 0x10000000000000 ∧ 0 < u then 1 else 2 := by
    split <;> omega
  calc overflow = (2 ^ 54 - 1) * 2 ^ (lastUnit + 1) := by
        rw [overflow, Nat.pow_succ]
        omega
    _ ≤ lower m u := Nat.mul_le_mul ends powers

theorem RoundsTo.lt_overflow {num den m u : Nat} (positive : 0 < den)
    (rounds : RoundsTo num den m u) (fits : m < 2 ^ 53) (inside : u ≤ lastUnit) :
    4 * num < overflow * den := by
  have powers : 2 ^ u ≤ 2 ^ lastUnit := Nat.pow_le_pow_right (by decide) inside
  by_cases last : m = 2 ^ 53 - 1
  · have strict := (rounds.odd (by omega)).2
    refine Nat.lt_of_lt_of_le strict (Nat.mul_le_mul_right den ?_)
    exact Nat.mul_le_mul (by omega) powers
  · refine Nat.lt_of_le_of_lt rounds.high (Nat.mul_lt_mul_of_pos_right ?_ positive)
    refine Nat.lt_of_le_of_lt (Nat.mul_le_mul_left _ powers) ?_
    exact Nat.mul_lt_mul_of_pos_right (by omega) (Nat.two_pow_pos lastUnit)

theorem isFinite_ofRatio_iff (negative : Bool) (num : Nat) {den : Nat} (positive : 0 < den) :
    (ofRatio negative num den).isFinite = true ↔ 4 * (num * grain) < overflow * den := by
  obtain ⟨m, u, packed, fits, normal, rounds⟩ := ofRatio_parts negative num positive
  rw [packed]
  by_cases inside : u ≤ lastUnit
  · have finite := (pack_of_fits negative fits normal inside).1
    exact iff_of_true finite (rounds.lt_overflow positive fits inside)
  · have large : 2 ^ 52 ≤ m := normal.resolve_right (by omega)
    have above := rounds.overflow_le large (not_le.mp inside)
    rw [pack_of_large negative large (not_le.mp inside), isFinite_infinity]
    exact iff_of_false Bool.false_ne_true (Nat.not_lt.mpr above)

theorem scale_eq : scale = ((4 * grain : ℕ) : ℚ) := by
  have split (k : Nat) : (2 : ℚ) ^ (2 + k) = (4 * 2 ^ k : ℕ) := by
    rw [pow_add]
    norm_num
  unfold grain
  exact split 1074

theorem ratio_mul_scale (num den : Nat) :
    (num / den : ℚ) * scale = ((4 * (num * grain) : ℕ) : ℚ) / den := by
  rw [scale_eq]
  push_cast
  ring

/-- Quotients compare with the ends as their cross products do. -/
theorem le_ratio_iff {num den : Nat} (positive : 0 < den) (n : Nat) :
    ((n : ℚ) ≤ (num / den : ℚ) * scale ↔ n * den ≤ 4 * (num * grain)) := by
  have pos : (0 : ℚ) < den := by exact_mod_cast positive
  rw [ratio_mul_scale, le_div_iff₀ pos]
  exact_mod_cast Iff.rfl

theorem ratio_le_iff {num den : Nat} (positive : 0 < den) (n : Nat) :
    ((num / den : ℚ) * scale ≤ n ↔ 4 * (num * grain) ≤ n * den) := by
  have pos : (0 : ℚ) < den := by exact_mod_cast positive
  rw [ratio_mul_scale, div_le_iff₀ pos]
  exact_mod_cast Iff.rfl

theorem roundedFrom_ofRatio {negative : Bool} {num den : Nat} (positive : 0 < den)
    (finite : (ofRatio negative num den).isFinite = true) :
    (ofRatio negative num den).RoundedFrom (num / den) := by
  obtain ⟨m, u, packed, fits, normal, rounds⟩ := ofRatio_parts negative num positive
  have inside : u ≤ lastUnit := by
    by_contra large
    have high : 2 ^ 52 ≤ m := normal.resolve_right (by omega)
    rw [packed, pack_of_large negative high (not_le.mp large)] at finite
    cases finite
  obtain ⟨_, significands, units⟩ := pack_of_fits negative fits normal inside
  have low_eq : (pack negative m u).lowEnd = lower m u := by
    rw [lowEnd, significands, units, lower]
  have high_eq : (pack negative m u).highEnd = upper m u := by
    rw [highEnd, significands, units, upper]
  rw [packed, RoundedFrom, low_eq, high_eq, significands]
  split
  · exact ⟨(le_ratio_iff positive _).mpr rounds.low, (ratio_le_iff positive _).mpr rounds.high⟩
  · obtain ⟨low, high⟩ := rounds.odd (by omega)
    exact ⟨not_le.mp fun above => Nat.not_le.mpr low ((ratio_le_iff positive _).mp above),
      not_le.mp fun below => Nat.not_le.mpr high ((le_ratio_iff positive _).mp below)⟩

def size (x : Double) : ℚ := x.magnitude / grain

theorem size_nonneg (x : Double) : 0 ≤ x.size := by
  unfold size
  positivity

theorem size_le_of_roundedFrom {x y : Double} {p q : ℚ} (hx : x.RoundedFrom p)
    (hy : y.RoundedFrom q) (le : p ≤ q) : x.size ≤ y.size := by
  have order := not_less_of_roundedFrom hy hx le
  have magnitudes : x.magnitude ≤ y.magnitude := by
    by_cases units : x.unit = y.unit
    · rw [magnitude_eq, magnitude_eq, units]
      exact Nat.mul_le_mul_right _ (by omega)
    · exact (magnitude_lt_of_unit_lt (by omega)).le
  unfold size
  gcongr

theorem isFinite_ofRatio_iff_lt (negative : Bool) (num : Nat) {den : Nat} (positive : 0 < den) :
    (ofRatio negative num den).isFinite = true ↔ (num / den : ℚ) * scale < overflow := by
  rw [isFinite_ofRatio_iff negative num positive, ← not_le, ← not_le, le_ratio_iff positive]

theorem ratio_scaled (num den up down : Nat) :
    ((num <<< (up - down) : ℕ) / (den <<< (down - up) : ℕ) : ℚ) = num * 2 ^ up / (den * 2 ^ down) := by
  have powers : (2 : ℚ) ^ (up - down) * 2 ^ down = 2 ^ up * 2 ^ (down - up) := by
    exact_mod_cast two_pow_split up down
  have positive : (0 : ℚ) < 2 ^ (down - up) := by positivity
  rw [Nat.shiftLeft_eq, Nat.shiftLeft_eq]
  push_cast
  by_cases zero : (den : ℚ) = 0
  · simp [zero]
  · field_simp
    rw [mul_assoc, powers, mul_assoc, mul_comm (2 ^ up : ℚ)]

theorem ofScaled_den_pos {den : Nat} (positive : 0 < den) (k : Nat) : 0 < den <<< k := by
  rw [Nat.shiftLeft_eq]
  exact Nat.mul_pos positive (Nat.two_pow_pos k)

theorem roundedFrom_ofScaled {negative : Bool} {num den up down : Nat} (positive : 0 < den)
    (finite : (ofScaled negative num den up down).isFinite = true) :
    (ofScaled negative num den up down).RoundedFrom (num * 2 ^ up / (den * 2 ^ down)) := by
  rw [← ratio_scaled]
  exact roundedFrom_ofRatio (ofScaled_den_pos positive _) finite

theorem isFinite_ofScaled_iff {negative : Bool} {num den up down : Nat} (positive : 0 < den) :
    (ofScaled negative num den up down).isFinite = true ↔
      (num * 2 ^ up / (den * 2 ^ down) : ℚ) * scale < overflow := by
  rw [← ratio_scaled]
  exact isFinite_ofRatio_iff_lt _ _ (ofScaled_den_pos positive _)

theorem size_mul (x y : Double) :
    (((x.significand * y.significand : ℕ) : ℚ) * 2 ^ (x.unit + y.unit) / ((1 : ℕ) * 2 ^ 2148) : ℚ) =
      x.size * y.size := by
  have square (k : Nat) : (2 : ℚ) ^ (k + k) = ((2 ^ k : ℕ) : ℚ) * (2 ^ k : ℕ) := by
    rw [pow_add]
    norm_num
  have grains : (2 : ℚ) ^ 2148 = grain * grain := by
    unfold grain
    exact square 1074
  unfold size
  rw [magnitude_eq, magnitude_eq, grains, pow_add]
  push_cast
  ring

theorem roundedFrom_mul {x y : Double} (finite : (x.mul y).isFinite = true) :
    (x.mul y).RoundedFrom (x.size * y.size) := by
  rw [← size_mul]
  exact roundedFrom_ofScaled Nat.one_pos finite

theorem isFinite_mul_iff {x y : Double} :
    (x.mul y).isFinite = true ↔ x.size * y.size * scale < overflow := by
  rw [← size_mul]
  exact isFinite_ofScaled_iff Nat.one_pos

theorem size_div (x y : Double) :
    (x.significand * 2 ^ x.unit / (y.significand * 2 ^ y.unit) : ℚ) = x.size / y.size := by
  have steps : (grain : ℚ) ≠ 0 := by exact_mod_cast grain_pos.ne'
  unfold size
  rw [magnitude_eq, magnitude_eq, div_div_div_cancel_right₀ steps]
  push_cast
  ring

theorem roundedFrom_div {x y : Double} (nonzero : 0 < y.significand)
    (finite : (x.div y).isFinite = true) : (x.div y).RoundedFrom (x.size / y.size) := by
  rw [← size_div]
  exact roundedFrom_ofScaled nonzero finite

theorem isFinite_div_iff {x y : Double} (nonzero : 0 < y.significand) :
    (x.div y).isFinite = true ↔ x.size / y.size * scale < overflow := by
  rw [← size_div]
  exact isFinite_ofScaled_iff nonzero

@[irreducible] def mostTens : Nat := 308

theorem isFinite_ofNat {n : Nat} (fits : n ≤ Nat.pow 10 mostTens) : (ofNat n).isFinite = true := by
  apply (isFinite_ofRatio_iff false n Nat.one_pos).mpr
  have widest : 4 * (Nat.pow 10 mostTens * grain) < overflow * 1 := by decide +kernel
  exact Nat.lt_of_le_of_lt (Nat.mul_le_mul_left 4 (Nat.mul_le_mul_right grain fits)) widest

theorem roundedFrom_ofNat {n : Nat} (fits : n ≤ Nat.pow 10 mostTens) : (ofNat n).RoundedFrom n := by
  have rounded : (ofNat n).RoundedFrom (n / (1 : ℕ)) :=
    roundedFrom_ofRatio Nat.one_pos (isFinite_ofNat fits)
  rwa [Nat.cast_one, div_one] at rounded

theorem two_pow_dvd_grain {k : Nat} (small : k ≤ 1074) : 2 ^ k ∣ grain := by
  have divides (m : Nat) (le : k ≤ m) : 2 ^ k ∣ 2 ^ m := Nat.pow_dvd_pow 2 le
  unfold grain
  exact divides 1074 small

theorem two_mul_grain_le {k : Nat} (large : 1074 < k) : 2 * grain ≤ 2 ^ k := by
  unfold grain
  exact two_mul_two_pow_le large

theorem magnitude_ofNat {n : Nat} (fits : n < 2 ^ 53) : (ofNat n).magnitude = n * grain := by
  obtain ⟨below, normal⟩ := unit_bounds (n * grain) Nat.one_pos
  unfold ofNat ofRatio
  simp only [shiftLeft_grain]
  generalize (n * grain / 1).log2 - 52 = u at below normal ⊢
  rw [Nat.one_mul] at below normal
  -- The unit is at most one, so that it divides every whole number.
  have small : u ≤ 1074 := by
    by_contra large
    have := normal (by omega)
    have := two_mul_grain_le (not_le.mp large)
    have : n * grain ≤ (2 ^ 53 - 1) * grain := Nat.mul_le_mul_right grain (by omega)
    have := grain_pos
    omega
  have divides : n * grain % 2 ^ u = 0 :=
    Nat.mod_eq_zero_of_dvd (Nat.dvd_mul_left_of_dvd (two_pow_dvd_grain small) n)
  have whole := nearestEven_of_dvd (Nat.two_pow_pos u) divides
  rw [Nat.one_shiftLeft]
  generalize nearestEven (n * grain) (2 ^ u) = q at whole ⊢
  rw [← whole] at below normal ⊢
  have fits' : q < 2 ^ 53 := Nat.lt_of_mul_lt_mul_right below
  have normal' : 2 ^ 52 ≤ q ∨ u = 0 := (Nat.eq_zero_or_pos u).symm.imp
    (fun positive => Nat.le_of_mul_le_mul_right (normal positive) (Nat.two_pow_pos u)) id
  obtain ⟨_, significands, units⟩ :=
    pack_of_fits false fits' normal' (small.trans (by unfold lastUnit; decide))
  rw [if_neg (by omega), magnitude_eq, significands, units]

theorem size_ofNat {n : Nat} (fits : n ≤ 2 ^ 53) : (ofNat n).size = n := by
  have magnitude : (ofNat n).magnitude = n * grain := by
    rcases fits.lt_or_eq with fits | rfl
    · exact magnitude_ofNat fits
    · decide +kernel
  have steps : (grain : ℚ) ≠ 0 := by exact_mod_cast grain_pos.ne'
  rw [size, magnitude, Nat.cast_mul, mul_div_cancel_right₀ _ steps]

theorem size_powerOfTen {k : Nat} (small : k ≤ 22) : (Numeral.powerOfTen k).size = 10 ^ k := by
  have magnitude : ∀ k < 23, (Numeral.powerOfTen k).magnitude = 10 ^ k * grain := by
    decide +kernel
  have steps : (grain : ℚ) ≠ 0 := by exact_mod_cast grain_pos.ne'
  rw [size, magnitude k (by omega), Nat.cast_mul, mul_div_cancel_right₀ _ steps]
  norm_num

end GridSweep.Double
