import GridSweep.Report

/-!
Parameters of a sweep and the ranges that expand to lists of candidates. An arithmetic progression is
counted in words of 64 bits (`Range.words`), as far as a sum of words is a word.
-/
namespace GridSweep

/-- The mean and spread of values drawn elsewhere; no axis of the grid. -/
structure Distribution where
  mean : Double
  stddev : Double

namespace Distribution

def isSound (d : Distribution) : Bool :=
  d.mean.isFinite && d.stddev.isFinite && decide (0 ≤ d.stddev.scaled)

def same (a b : Distribution) : Bool := a.mean.same b.mean && a.stddev.same b.stddev

def encode (d : Distribution) : Json :=
  .obj [("mean", .ofDouble d.mean), ("stddev", .ofDouble d.stddev)]

open Decode in
def record :=
  ((Record.field (.needed "mean" double)).and (Record.field (.needed "stddev" double))).map
    fun (mean, stddev) => Distribution.mk mean stddev

def decoder : Decode.Decoder Distribution := record.decoder "struct Distribution"

end Distribution

/-- How one parameter varies: not at all, over candidates in order, or not in the grid. -/
inductive ParameterKind where
  | fixed (value : Json)
  | categorical (values : List Json)
  | distribution (d : Distribution)

namespace ParameterKind

def cardinality : ParameterKind → Nat
  | fixed _ | distribution _ => 1
  | categorical values => values.length

def isGrid : ParameterKind → Bool
  | distribution _ => false
  | _ => true

def encode : ParameterKind → Json
  | fixed value => .obj [("fixed", value)]
  | categorical values => .obj [("categorical", .arr values)]
  | distribution d => .obj [("distribution", d.encode)]

open Decode in
def decoder : Decoder ParameterKind :=
  enumeration ["fixed", "categorical", "distribution"] (.carried fun name c n =>
    if name = "fixed" then fixed <$> value c n
    else if name = "categorical" then categorical <$> list value c n
    else distribution <$> Distribution.decoder c n)

end ParameterKind

/-- A whole number in the place of a word; readers of words check that it is one. -/
scoped instance wordOfInt : Coe Int Int64 := ⟨Int64.ofInt⟩

namespace Range

def sum? (a b : Int64) : Option Int64 :=
  if a.toBitVec.saddOverflow b.toBitVec then none else some (a + b)

theorem toInt_of_sum? {a b c : Int64} (h : sum? a b = some c) : c.toInt = a.toInt + b.toInt := by
  unfold sum? at h
  split at h
  · cases h
  · rename_i fits
    rw [← Option.some.inj h]
    exact BitVec.toInt_add_of_not_saddOverflow fits

/-- The words from the next one on, each `step` more than the one before it, as far as `bound`. There
is no next one where the sum is no word. -/
def words (bound step : Int64) (positive : 0 < step) : Option Int64 → List Int64
  | none => []
  | some v => if v ≤ bound then v :: words bound step positive (sum? v step) else []
termination_by next => next.elim 0 fun v => (bound.toInt + 1 - v.toInt).toNat
decreasing_by
  rename_i within
  have upward : 0 < step.toInt := Int64.lt_iff_toInt_lt.mp positive
  have below : v.toInt ≤ bound.toInt := Int64.le_iff_toInt_le.mp within
  cases sum : sum? v step with
  | none => simp only [Option.elim_none, Option.elim_some]; omega
  | some w =>
    have added := toInt_of_sum? sum
    simp only [Option.elim_some]
    omega

def powers (low high : Nat) : List Int :=
  (List.range (high + 1 - low)).map fun i => Int.ofNat (1 <<< (low + i))

/-- The largest exponent of a power that a range may reach. -/
def maxExponent : Nat := 62

end Range

end GridSweep
