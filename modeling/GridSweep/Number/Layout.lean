import GridSweep.Number.Shortest

namespace GridSweep

/-- The choices of a number format. Digits are written positionally while the decimal exponent of
the first one lies between `lowest` and `highest`. -/
structure Layout where
  lowest : Option Int
  highest : Option Int
  wholeSuffix : String
  /-- Which of two shortest decimals equally near to the number is written. -/
  tie : Tie

namespace Layout

/-- Positional from `0.00001` up to sixteen digits, a whole number ending in `.0`. -/
def json : Layout := ⟨some (-5), some 15, ".0", .toEven⟩

/-- Always positional, a whole number without a point. -/
def message : Layout := ⟨none, none, "", .up⟩

def positional (l : Layout) (scientific : Int) : Bool :=
  (l.lowest.all (· ≤ scientific)) && (l.highest.all (scientific ≤ ·))

def zeros (n : Nat) : String := String.ofList (List.replicate n '0')

/-- Digits with the point after the first `point` of them, padded by zeros on either side. -/
def place (l : Layout) (digits : List Char) (point : Int) : String :=
  let count := digits.length
  if (count : Int) ≤ point then
    String.ofList digits ++ zeros (point.toNat - count) ++ l.wholeSuffix
  else if 0 < point then
    String.ofList (digits.take point.toNat) ++ "." ++ String.ofList (digits.drop point.toNat)
  else "0." ++ zeros (-point).toNat ++ String.ofList digits

def scientific (digits : List Char) (exponent : Int) : String :=
  let mantissa := match digits with
    | [] => "0"
    | [d] => String.ofList [d]
    | d :: rest => String.ofList (d :: '.' :: rest)
  let sign := if exponent < 0 then "-" else "+"
  mantissa ++ "e" ++ sign ++ toString exponent.natAbs

def finite (l : Layout) (x : Double) : String :=
  let sign := if x.negative then "-" else ""
  if x.isZero then sign ++ "0" ++ l.wholeSuffix
  else
    let d := Decimal.shortest x l.tie
    let digits := Nat.toDigits 10 d.digits
    let first := d.exponent + digits.length - 1
    sign ++ if l.positional first then l.place digits (first + 1) else scientific digits first

end Layout

def Double.display (x : Double) : String :=
  if x.isNaN then "NaN"
  else if x.isFinite then Layout.message.finite x
  else if x.negative then "-inf" else "inf"

def Number.text : Number → String
  | .int i => toString i
  | .float x => Layout.json.finite x

end GridSweep
