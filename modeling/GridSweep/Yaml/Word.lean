import GridSweep.Number.Numeral

/-!
Scalars of a YAML document and what an untyped reader takes them for. A plain scalar is null, a
truth value or a number when it is written as one; anything else is a text.
-/
namespace GridSweep.Yaml

/-- How a scalar is written: bare, as a literal block, or in another way that is always a text. -/
inductive Style where
  | plain
  | literal
  | quoted
  deriving DecidableEq

/-- The tag of a node: one of the core types, a name local to the document, or some other type. A
local tag that is not UTF-8 gives no name. -/
inductive Tag where
  | untagged
  | bool
  | int
  | float
  | null
  | foreign
  | named (name : String)
  | nameless
  deriving DecidableEq

def Tag.name? : Tag → Option String
  | named name => some name
  | _ => none

structure Word where
  text : String
  style : Style
  tag : Tag
  deriving DecidableEq

namespace Word

/-- The word as it stands once its tag has been used. -/
def withoutTag (w : Word) : Word := { w with tag := .untagged }

def isNull (s : String) : Bool := s == "null" || s == "Null" || s == "NULL" || s == "~"

def bool? (s : String) : Option Bool :=
  if s == "true" || s == "True" || s == "TRUE" then some true
  else if s == "false" || s == "False" || s == "FALSE" then some false
  else none

def digitValue (c : Char) : Nat :=
  if c.isDigit then c.toNat - '0'.toNat
  else if 'a' ≤ c ∧ c ≤ 'f' then c.toNat - 'a'.toNat + 10
  else if 'A' ≤ c ∧ c ≤ 'F' then c.toNat - 'A'.toNat + 10
  else 16

def digits? (radix : Nat) (cs : List Char) : Option Nat :=
  if cs.isEmpty || cs.any (radix ≤ digitValue ·) then none
  else some (cs.foldl (fun n c => n * radix + digitValue c) 0)

/-- Digits after the mark of their radix, decimal without a mark. -/
def magnitude? : List Char → Option Nat
  | '0' :: 'x' :: rest => digits? 16 rest
  | '0' :: 'o' :: rest => digits? 8 rest
  | '0' :: 'b' :: rest => digits? 2 rest
  | cs => digits? 10 cs

def isSign (c : Char) : Bool := c == '+' || c == '-'

def unsigned : List Char → List Char
  | c :: rest => if isSign c then rest else c :: rest
  | [] => []

/-- A leading zero before further digits makes a text, not a number. -/
def hasLeadingZero (cs : List Char) : Bool :=
  match unsigned cs with
  | '0' :: c :: rest => (c :: rest).all Char.isDigit
  | _ => false

def int? (s : String) : Option Int :=
  let cs := s.toList
  if hasLeadingZero cs then none
  else match cs with
    | '-' :: rest => (magnitude? rest).map fun n => -n
    | '+' :: rest => (magnitude? rest).map Int.ofNat
    | cs => (magnitude? cs).map Int.ofNat

def digitList (cs : List Char) : List Nat := cs.map digitValue

/-- The exponent of a numeral: absent, or `e`, a sign, and digits. -/
def exponent? : List Char → Option (Option (Bool × List Nat))
  | [] => some none
  | c :: rest =>
    let digits := unsigned rest
    if (c == 'e' || c == 'E') && !digits.isEmpty && digits.all Char.isDigit then
      some (some (rest.head? == some '-', digitList digits))
    else none

/-- A decimal numeral without sign: digits with at most one point, then an exponent. -/
def numeral? (negative : Bool) (cs : List Char) : Option Numeral :=
  let whole := cs.takeWhile Char.isDigit
  let rest := cs.dropWhile Char.isDigit
  let point := rest.head? == some '.'
  let fraction := if point then (rest.drop 1).takeWhile Char.isDigit else []
  let tail := if point then (rest.drop 1).dropWhile Char.isDigit else rest
  if whole.isEmpty && fraction.isEmpty then none
  else (exponent? tail).map fun e =>
    ⟨negative, digitList whole, if point then some (digitList fraction) else none, e⟩

def finite? (n : Numeral) : Option Double :=
  if n.nearest.isFinite then some n.nearest else none

def isInfinityName (s : String) : Bool := s == ".inf" || s == ".Inf" || s == ".INF"

/-- The floating-point number a text denotes; one that is out of range is no number. -/
def float? (s : String) : Option Double :=
  if s == ".nan" || s == ".NaN" || s == ".NAN" then some (.notANumber false)
  else match s.toList with
    | '-' :: rest =>
      if isInfinityName (String.ofList rest) then some (.infinity true)
      else (numeral? true rest).bind finite?
    | '+' :: rest =>
      if isInfinityName (String.ofList rest) then some (.infinity false)
      else (numeral? false rest).bind finite?
    | cs =>
      if isInfinityName s then some (.infinity false) else (numeral? false cs).bind finite?

inductive Value where
  | null
  | bool (b : Bool)
  | num (n : Number)
  | text (s : String)
  /-- A whole number beyond 64 bits, or a text that its tag does not allow. -/
  | unreadable

/-- Whole numbers keep their value within 64 bits, are refused up to 128 bits, and are
floating-point numbers beyond. -/
def integer? (s : String) : Option Value :=
  (int? s).bind fun i =>
    if -0x8000000000000000 ≤ i ∧ i ≤ 0xffffffffffffffff then some (.num (.int i))
    else if -0x80000000000000000000000000000000 ≤ i ∧ i ≤ 0xffffffffffffffffffffffffffffffff then
      some .unreadable
    else none

def plainValue (s : String) : Value :=
  if s.isEmpty || isNull s then .null
  else match bool? s with
    | some b => .bool b
    | none => match integer? s with
      | some v => v
      | none =>
        if hasLeadingZero s.toList then .text s
        else match float? s with
          | some x => .num (.float x)
          | none => .text s

def value (w : Word) : Value :=
  match w.tag with
  | .untagged | .nameless => if w.style = .plain then plainValue w.text else .text w.text
  | .bool => match bool? w.text with
    | some b => .bool b
    | none => .unreadable
  | .int => (integer? w.text).getD .unreadable
  | .float => match float? w.text with
    | some x => .num (.float x)
    | none => .unreadable
  | .null => if isNull w.text then .null else .unreadable
  | .foreign => .text w.text
  | .named _ => .unreadable

/-- Whether a reader that wants a number of the given tag may look into the scalar. -/
def mayHold (tag : Tag) (w : Word) : Bool :=
  w.style == .plain || (w.style == .literal && w.tag == tag)

/-- The whole number a typed reader finds; one that counts takes no minus sign, not even on zero. -/
def typedInt? (signed : Bool) (w : Word) : Option Int :=
  if w.mayHold .int && (signed || w.text.toList.head? != some '-') then int? w.text else none

def typedFloat? (w : Word) : Option Double := if w.mayHold .float then float? w.text else none

/-- A bare scalar with nothing in it stands for an empty collection. -/
def isEmptyPlain (w : Word) : Bool := w.style == .plain && w.text.isEmpty

/-- Whether an optional value is absent; none when a null tag stands on another text. -/
def absent? (w : Word) : Option Bool :=
  if w.style ≠ .plain then some false
  else match w.tag with
    | .untagged => some (w.text.isEmpty || isNull w.text)
    | .null => if isNull w.text then some true else none
    | _ => some false

end Word

end GridSweep.Yaml
