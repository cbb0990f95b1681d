import GridSweep.Number.Double

/-!
Numerals as they stand in a text, and the numbers they denote. JSON numerals go through a running
64-bit significand and at most one multiplication or division by a power of ten, so the last bit of
a long fraction may differ from the nearest number; `Numeral.nearest` is the correctly rounded value.
-/
namespace GridSweep

/-- A decimal numeral taken apart; digits are values below ten, in reading order. -/
structure Numeral where
  negative : Bool
  whole : List Nat
  fraction : Option (List Nat)
  /-- Whether the exponent is negative, and its digits. -/
  exponent : Option (Bool × List Nat)
  deriving DecidableEq

namespace Numeral

/-- Reads digits while the value stays below `bound`; gives the value and the digits left over. -/
def fitting (bound : Nat) : Nat → List Nat → Nat × List Nat
  | value, [] => (value, [])
  | value, d :: rest =>
    if value * 10 + d < bound then fitting bound (value * 10 + d) rest else (value, d :: rest)

def powerOfTen (n : Nat) : Double := .ofNat (Nat.pow 10 n)

/-- The value `significand * 10 ^ exponent` by one multiplication, one division, or, below
`10 ^ -308`, two divisions; none when the product overflows. -/
def scale (significand : Nat) (exponent : Int) : Option Double :=
  let x := Double.ofNat significand
  if 308 < exponent then
    if x.isZero then some x else none
  else if 0 ≤ exponent then
    let product := x.mul (powerOfTen exponent.toNat)
    if product.isFinite then some product else none
  else if -308 ≤ exponent then some (x.div (powerOfTen (-exponent).toNat))
  else if -616 ≤ exponent then
    some ((x.div (powerOfTen 308)).div (powerOfTen (-exponent - 308).toNat))
  else some .zero

/-- The exponent, or none when its digits do not fit 32 bits. -/
def exponentValue (digits : List Nat) : Option Nat :=
  match fitting 0x80000000 0 digits with
  | (value, []) => some value
  | _ => none

/-- The floating-point reading; none when the number is out of range. -/
def floating (n : Numeral) : Option Double :=
  let (significand, spare) := fitting 0x10000000000000000 0 n.whole
  let fraction := n.fraction.getD []
  let (significand, rest) := fitting 0x10000000000000000 significand fraction
  let start : Int := (spare.length : Int) - ((fraction.length - rest.length : Nat) : Int)
  let magnitude := match n.exponent with
    | none => scale significand start
    | some (down, digits) => match exponentValue digits with
      | some e => scale significand (if down then start - e else start + e)
      | none => if significand ≠ 0 ∧ !down then none else some .zero
  magnitude.map fun x => if n.negative then x.negate else x

/-- The number a JSON numeral denotes: an integer when it has neither point nor exponent, fits 64
bits and is not `-0`. -/
def number? (n : Numeral) : Option Number :=
  let (value, spare) := fitting 0x10000000000000000 0 n.whole
  if n.fraction.isNone && n.exponent.isNone && spare.isEmpty then
    if !n.negative then some (.int value)
    else if value = 0 ∨ 0x8000000000000000 < value then some (.float (Double.ofNat value).negate)
    else some (.int (-value))
  else n.floating.map .float

def value (digits : List Nat) : Nat := digits.foldl (fun v d => v * 10 + d) 0

/-- The number nearest to the numeral; infinity when it is out of range. -/
def nearest (n : Numeral) : Double :=
  let fraction := n.fraction.getD []
  let digits := value (n.whole ++ fraction)
  let shift : Int := match n.exponent with
    | none => 0
    | some (down, ds) => if down then -(value ds : Int) else value ds
  let exponent := shift - fraction.length
  let length : Int := (n.whole.length + fraction.length : Nat)
  if digits = 0 then { Double.zero with negative := n.negative }
  else if 400 < exponent then .infinity n.negative
  else if exponent + length < -400 then { Double.zero with negative := n.negative }
  else if 0 ≤ exponent then .ofRatio n.negative (digits * Nat.pow 10 exponent.toNat) 1
  else .ofRatio n.negative digits (Nat.pow 10 (-exponent).toNat)

end Numeral

end GridSweep
