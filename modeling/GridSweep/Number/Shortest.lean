import GridSweep.Number.Double

/-!
The decimal of fewest digits that reads back as a given number: the multiple of the largest power
of ten that lies in the interval of values rounding to the number, and of two such the nearer one. A
`Tie` says which of two equally near ones.
-/
namespace GridSweep

/-- The value `digits * 10 ^ exponent`. -/
structure Decimal where
  digits : Nat
  exponent : Int
  deriving DecidableEq

/-- Where a number goes that lies halfway between two whole numbers. -/
inductive Tie where
  | toEven
  | up
  deriving DecidableEq

/-- The whole number that a number halfway between this and the next one goes to. -/
def Tie.choose (t : Tie) (floor : Nat) : Nat :=
  match t with
  | toEven => floor + floor % 2
  | up => floor + 1

namespace Decimal

def trimmed : Nat → Decimal → Decimal
  | 0, d => d
  | n + 1, d =>
    if d.digits ≠ 0 ∧ d.digits % 10 = 0 then trimmed n ⟨d.digits / 10, d.exponent + 1⟩ else d

/-- The values that round to one number, as numerators over a common denominator. -/
structure Interval where
  low : Nat
  middle : Nat
  high : Nat
  denominator : Nat
  closed : Bool

def Interval.holds (i : Interval) (num : Nat) : Bool :=
  if i.closed then decide (i.low ≤ num) && decide (num ≤ i.high)
  else decide (i.low < num) && decide (num < i.high)

def Interval.shift (i : Interval) (exponent : Int) : Interval :=
  if 0 ≤ exponent then { i with denominator := i.denominator * Nat.pow 10 exponent.toNat }
  else
    let t := Nat.pow 10 (-exponent).toNat
    { i with low := i.low * t, middle := i.middle * t, high := i.high * t }

def Interval.nearest? (i : Interval) (tie : Tie) : Option Nat :=
  let floor := i.middle / i.denominator
  let below := i.holds (floor * i.denominator)
  let above := i.holds ((floor + 1) * i.denominator)
  let rest := 2 * (i.middle % i.denominator)
  if below && above then
    if rest < i.denominator then some floor
    else if i.denominator < rest then some (floor + 1)
    else some (tie.choose floor)
  else if below then some floor
  else if above then some (floor + 1)
  else none

/-- The interval of a finite number: half a step to each side, a quarter below a power of two. The
ends belong to it when the significand is even. A quarter of a step is `2 ^ unit / 2 ^ 1076`, of which
one of the two powers is divided out. -/
def interval (x : Double) : Interval :=
  let m := x.significand
  let below := if m = 0x10000000000000 ∧ 0 < x.unit then 1 else 2
  let quarter := 1 <<< (x.unit - 1076)
  ⟨(4 * m - below) * quarter, 4 * m * quarter, (4 * m + 2) * quarter, 1 <<< (1076 - x.unit),
    m % 2 == 0⟩

def search (i : Interval) (tie : Tie) : Nat → Int → Option Decimal
  | 0, _ => none
  | n + 1, exponent =>
    match (i.shift exponent).nearest? tie with
    | some digits => some ⟨digits, exponent⟩
    | none => search i tie n (exponent - 1)

def exact (x : Double) : Decimal := ⟨x.magnitude * Nat.pow 5 1074, -1074⟩

/-- The shortest decimal that reads back as the magnitude of a finite number other than zero. -/
def shortest (x : Double) (tie : Tie) : Decimal :=
  let i := interval x
  let top := ((i.high.log2 : Int) - i.denominator.log2) * 30103 / 100000 + 2
  trimmed 400 ((search i tie 24 top).getD (exact x))

end Decimal

end GridSweep
