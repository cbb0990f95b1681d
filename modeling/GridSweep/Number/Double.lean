/-!
Binary64 numbers by their three fields, with exact arithmetic on the natural numbers behind them.
A finite number is `significand * 2 ^ unit / 2 ^ 1074`; every operation is that exact value rounded
once, to nearest with ties to even.
-/
namespace GridSweep

structure Double where
  negative : Bool
  exponent : Fin 2048
  fraction : Fin 0x10000000000000
  deriving DecidableEq

namespace Double

def zero : Double := ⟨false, 0, 0⟩
def infinity (negative : Bool) : Double := ⟨negative, 2047, 0⟩
/-- The quiet not-a-number with an empty payload. -/
def notANumber (negative : Bool) : Double := ⟨negative, 2047, ⟨0x8000000000000, by decide⟩⟩

instance : Inhabited Double := ⟨zero⟩

def isFinite (x : Double) : Bool := x.exponent.val != 2047
def isNaN (x : Double) : Bool := x.exponent.val == 2047 && x.fraction.val != 0
def isZero (x : Double) : Bool := x.exponent.val == 0 && x.fraction.val == 0

def significand (x : Double) : Nat :=
  if x.exponent.val = 0 then x.fraction.val else 0x10000000000000 + x.fraction.val

/-- The power of two, counted from the smallest, that one step of the significand is worth. -/
def unit (x : Double) : Nat := x.exponent.val - 1

/-- The magnitude in units of `2 ^ -1074`. Infinity counts as the power of two after the last number. -/
def magnitude (x : Double) : Nat := x.significand <<< x.unit

def scaled (x : Double) : Int := if x.negative then -x.magnitude else x.magnitude

def negate (x : Double) : Double := { x with negative := !x.negative }

/-- The number with this significand and unit, or infinity when the unit is out of range. -/
def pack (negative : Bool) (significand unit : Nat) : Double :=
  if low : significand < 0x10000000000000 then ⟨negative, 0, ⟨significand, low⟩⟩
  else if fits : unit < 2046 ∧ significand < 0x20000000000000 then
    ⟨negative, ⟨unit + 1, by omega⟩, ⟨significand - 0x10000000000000, by omega⟩⟩
  else infinity negative

/-- The quotient rounded to the nearest natural number, a half going to the even neighbour. -/
def nearestEven (num den : Nat) : Nat :=
  let q := num / den
  let r := 2 * (num % den)
  if r < den then q
  else if den < r then q + 1
  else q + q % 2

def ofRatio (negative : Bool) (num den : Nat) : Double :=
  let whole := num <<< 1074
  let unit := (whole / den).log2 - 52
  let q := nearestEven whole (den <<< unit)
  if q = 0x20000000000000 then pack negative 0x10000000000000 (unit + 1) else pack negative q unit

def ofNat (n : Nat) : Double := ofRatio false n 1
def ofInt (i : Int) : Double := ofRatio (i < 0) i.natAbs 1
def one : Double := ofNat 1

/-- The number nearest to `± num / den * 2 ^ up / 2 ^ down`, the powers of two divided out. -/
def ofScaled (negative : Bool) (num den up down : Nat) : Double :=
  ofRatio negative (num <<< (up - down)) (den <<< (down - up))

def mul (x y : Double) : Double :=
  ofScaled (x.negative != y.negative) (x.significand * y.significand) 1 (x.unit + y.unit) 2148

def div (x y : Double) : Double :=
  ofScaled (x.negative != y.negative) x.significand y.significand x.unit y.unit

def same (x y : Double) : Bool := !x.isNaN && !y.isNaN && x.scaled == y.scaled

/-- Numerical order, false when either side is not a number. -/
def le (x y : Double) : Bool := !x.isNaN && !y.isNaN && decide (x.scaled ≤ y.scaled)

/-- The place of a number in the total order: negative not-a-numbers first, `-0` before `0`,
positive not-a-numbers last. -/
def rank (x : Double) : Int :=
  let place : Nat := x.exponent.val * 0x10000000000000 + x.fraction.val
  if x.negative then -place - 1 else place

end Double

inductive Number where
  | int (i : Int)
  | float (x : Double)
  deriving DecidableEq

/-- Integers and floating-point numbers never coincide; `0.0` and `-0.0` do. -/
def Number.same : Number → Number → Bool
  | .int i, .int j => i == j
  | .float x, .float y => x.same y
  | _, _ => false

/-- An integer is rounded to the nearest floating-point number. -/
def Number.toDouble : Number → Double
  | .int i => .ofInt i
  | .float x => x

end GridSweep
