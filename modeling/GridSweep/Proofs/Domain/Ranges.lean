import GridSweep.Domain.Basic
import Mathlib.Algebra.Order.Group.Int
import Mathlib.Algebra.Ring.Divisibility.Basic
import Mathlib.Algebra.Ring.Int.Defs
import Mathlib.Tactic.Ring

namespace GridSweep

namespace Range

/-- The numbers `low`, `low + step`, and so on, as far as `high`. -/
def progression (low high step : Int) : List Int :=
  (List.range ((high - low) / step + 1).toNat).map fun i : Nat => low + i * step

section Progression

variable {low high step n : Int}

theorem progression_of_le (positive : 0 < step) (within : low ≤ high) :
    progression low high step = low :: progression (low + step) high step := by
  have quotient : (high - (low + step)) / step + 1 = (high - low) / step := by
    have shifted : high - low = high - (low + step) + 1 * step := by ring
    rw [shifted, Int.add_mul_ediv_right _ _ positive.ne']
  have nonnegative : 0 ≤ (high - low) / step := Int.ediv_nonneg (by omega) positive.le
  have count : ((high - low) / step + 1).toNat = ((high - low) / step).toNat + 1 := by omega
  rw [progression, progression, quotient, count, List.range_succ_eq_map, List.map_cons, List.map_map]
  congr 1
  · simp
  · apply List.map_congr_left
    intro i _
    simp only [Function.comp_apply, Nat.cast_succ]
    ring

theorem progression_of_lt (positive : 0 < step) (beyond : high < low) :
    progression low high step = [] := by
  have negative : (high - low) / step < 0 := Int.ediv_neg_of_neg_of_pos (by omega) positive
  have none : ((high - low) / step + 1).toNat = 0 := by omega
  rw [progression, none]
  rfl

theorem mem_progression (positive : 0 < step) :
    n ∈ progression low high step ↔ low ≤ n ∧ n ≤ high ∧ step ∣ n - low := by
  have last (i : Nat) : i < ((high - low) / step + 1).toNat ↔ low + i * step ≤ high := by
    have scaled := Int.le_ediv_iff_mul_le positive (a := (i : Int)) (b := high - low)
    omega
  rw [progression, List.mem_map]
  constructor
  · rintro ⟨i, inside, rfl⟩
    have above : 0 ≤ (i : Int) * step := Int.mul_nonneg (Int.natCast_nonneg i) positive.le
    have whole : low + i * step - low = i * step := by ring
    exact ⟨by omega, (last i).mp (List.mem_range.mp inside), i, by rw [whole, mul_comm]⟩
  · rintro ⟨least, greatest, k, apart⟩
    have counted : 0 ≤ k := Int.le_of_mul_le_mul_left (by omega : step * 0 ≤ step * k) positive
    obtain ⟨i, rfl⟩ := Int.eq_ofNat_of_zero_le counted
    have place : low + i * step = n := by rw [mul_comm, ← apart]; ring
    exact ⟨i, List.mem_range.mpr ((last i).mpr (by omega)), place⟩

theorem pairwise_progression (positive : 0 < step) :
    (progression low high step).Pairwise (· < ·) := by
  apply List.pairwise_map.mpr
  apply List.pairwise_lt_range.imp
  intro i j before
  have further : (i : Int) * step < j * step := Int.mul_lt_mul_of_pos_right (by omega) positive
  omega

end Progression

theorem sum?_eq_none {a b : Int64} (h : sum? a b = none) :
    a.toInt + b.toInt < -2 ^ 63 ∨ 2 ^ 63 ≤ a.toInt + b.toInt := by
  unfold sum? at h
  split at h
  · rename_i overflows
    simp only [BitVec.saddOverflow, Int64.toInt_toBitVec, Bool.or_eq_true, decide_eq_true_eq] at overflows
    exact overflows.symm
  · cases h

theorem positive_toInt {step : Int64} (positive : 0 < step) : 0 < step.toInt :=
  Int64.lt_iff_toInt_lt.mp positive

/-- Where the sum is no word, it is beyond the bound, so counting in words leaves out nothing. -/
theorem map_words (bound step : Int64) (positive : 0 < step) (next : Option Int64) :
    (words bound step positive next).map Int64.toInt =
      next.elim [] fun v => progression v.toInt bound.toInt step.toInt := by
  have upward := positive_toInt positive
  induction next using words.induct bound step positive with
  | case1 => rw [words, List.map_nil, Option.elim_none]
  | case2 v within ih =>
    have least := v.le_toInt
    have greatest := bound.toInt_lt
    rw [words, if_pos within, List.map_cons, ih, Option.elim_some,
      progression_of_le upward (Int64.le_iff_toInt_le.mp within)]
    cases sum : sum? v step with
    | none =>
      have beyond := sum?_eq_none sum
      rw [Option.elim_none, progression_of_lt upward (by omega)]
    | some w => rw [Option.elim_some, toInt_of_sum? sum]
  | case3 v beyond =>
    have above : ¬ v.toInt ≤ bound.toInt := fun below => beyond (Int64.le_iff_toInt_le.mpr below)
    rw [words, if_neg beyond, List.map_nil, Option.elim_some, progression_of_lt upward (by omega)]

theorem powers_eq (low high : Nat) :
    powers low high = (List.range (high + 1 - low)).map fun i => (2 : Int) ^ (low + i) := by
  apply List.map_congr_left
  intro i _
  rw [Nat.one_shiftLeft]
  simp

end Range

namespace ParameterKind

def progression (min max step : Int64) : ParameterKind :=
  .categorical ((Range.progression min.toInt max.toInt step.toInt).map .ofInt)

def powersOfTwo (min max : Nat) : ParameterKind :=
  .categorical ((List.range (max + 1 - min)).map fun i => .ofInt (2 ^ (min + i)))

theorem linear_eq (min max step : Int64) : linear min max step =
    if 0 < step ∧ min ≤ max then .ok (progression min max step)
    else .error (.emptyLinear min max step) := by
  by_cases sound : 0 < step ∧ min ≤ max
  · have counted := Range.map_words max step sound.1 (some min)
    rw [Option.elim_some] at counted
    rw [linear, dif_pos sound, if_pos sound, progression, ← counted, List.map_map]
    rfl
  · rw [linear, dif_neg sound, if_neg sound]

/-- A range of words lists the numbers at whole steps from its start that are not beyond its end, each
once and in ascending order: those that counting in words gives, the sum after the last of them being no
word or beyond the end. A range without a number in it fails. -/
theorem linear_exact (min max step : Int64) :
    (∀ positive : 0 < step, min ≤ max → ∃ numbers : List Int,
      linear min max step = .ok (.categorical (numbers.map .ofInt)) ∧
      numbers = (Range.words max step positive (some min)).map Int64.toInt ∧
      numbers = (List.range (((max.toInt - min.toInt) / step.toInt).toNat + 1)).map
        (fun i : Nat => min.toInt + i * step.toInt) ∧
      numbers.Pairwise (· < ·) ∧
      ∀ n, n ∈ numbers ↔ min.toInt ≤ n ∧ n ≤ max.toInt ∧ step.toInt ∣ n - min.toInt) ∧
    (¬ (0 < step ∧ min ≤ max) → ∃ fault,
      linear min max step = .error fault ∧ fault.report.kind = .invalidParameter) := by
  constructor
  · intro positive ordered
    have upward := Range.positive_toInt positive
    have order : min.toInt ≤ max.toInt := Int64.le_iff_toInt_le.mp ordered
    have listed := Range.map_words max step positive (some min)
    have width : 0 ≤ (max.toInt - min.toInt) / step.toInt :=
      Int.ediv_nonneg (Int.sub_nonneg.mpr order) upward.le
    have count : ((max.toInt - min.toInt) / step.toInt + 1).toNat =
        ((max.toInt - min.toInt) / step.toInt).toNat + 1 := by omega
    rw [Option.elim_some] at listed
    refine ⟨_, ?_, listed.symm, ?_, Range.pairwise_progression upward, fun n =>
      Range.mem_progression upward⟩
    · rw [linear_eq, if_pos ⟨positive, ordered⟩]
      rfl
    · rw [Range.progression, count]
  · intro unsound
    exact ⟨.emptyLinear min max step, by rw [linear_eq, if_neg unsound], rfl⟩

/-- Over all words, in steps whose last sum is no word: neither the width nor that sum is one. -/
theorem linear_widest :
    linear Int64.minValue Int64.maxValue 0x4000000000000000 =
        .ok (.categorical
          ([-0x8000000000000000, -0x4000000000000000, 0, 0x4000000000000000].map .ofInt)) ∧
      ∃ fault, linear 1 0 1 = .error fault ∧ fault.report.kind = .invalidParameter := by
  obtain ⟨numbers, listed, -, closed, -, -⟩ :=
    (linear_exact Int64.minValue Int64.maxValue 0x4000000000000000).1 (by decide +kernel)
      (by decide +kernel)
  have four : numbers = [-0x8000000000000000, -0x4000000000000000, 0, 0x4000000000000000] :=
    closed.trans (by decide +kernel)
  rw [four] at listed
  exact ⟨listed, (linear_exact 1 0 1).2 (by decide +kernel)⟩

theorem exponential_eq (min max : Nat) : exponential min max =
    if min ≤ max ∧ max ≤ 62 then .ok (powersOfTwo min max)
    else .error (.emptyExponential min max) := by
  rw [exponential, Range.powers_eq, List.map_map]
  rfl

end ParameterKind

end GridSweep
