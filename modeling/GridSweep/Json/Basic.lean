import GridSweep.Number.Double
import GridSweep.Table

/-!
JSON values. The members of an object keep the order in which they were written; the normal form of
a value has every object's members in ascending order, each name once, the last value counting.
-/
namespace GridSweep

inductive Json where
  | null
  | bool (b : Bool)
  | num (n : Number)
  | str (s : String)
  | arr (items : List Json)
  | obj (members : List (String × Json))

namespace Json

instance : Inhabited Json := ⟨null⟩

def ofNat (n : Nat) : Json := num (.int n)
def ofInt (i : Int) : Json := num (.int i)

/-- JSON has no infinities and no not-a-number: they become `null`. -/
def ofDouble (x : Double) : Json := if x.isFinite then num (.float x) else null

def ofEntries {α : Type} (encode : α → Json) (entries : List (String × α)) : Json :=
  obj (entries.map fun e => (e.1, encode e.2))

/-- A member that is left out when there is no value. -/
def ifAny {α : Type} (name : String) (encode : α → Json) : Option α → List (String × Json)
  | none => []
  | some x => [(name, encode x)]

def ofOption {α : Type} (encode : α → Json) : Option α → Json
  | none => null
  | some x => encode x

/-- Members in ascending order, the last of several with one name. -/
def sorted (members : List (String × Json)) : List (String × Json) :=
  (SortedTable.ofList members).entries

mutual

/-- The value with the members of every object in ascending order and each name once. -/
def normal : Json → Json
  | null => null
  | bool b => bool b
  | num n => num n
  | str s => str s
  | arr items => arr (normalItems items)
  | obj members => obj (sorted (normalMembers members))

def normalItems : List Json → List Json
  | [] => []
  | x :: rest => normal x :: normalItems rest

def normalMembers : List (String × Json) → List (String × Json)
  | [] => []
  | (name, x) :: rest => (name, normal x) :: normalMembers rest

end

mutual

/-- Equality of values in normal form, numbers being compared as numbers. -/
def same : Json → Json → Bool
  | null, null => true
  | bool a, bool b => a == b
  | num a, num b => a.same b
  | str a, str b => a == b
  | arr a, arr b => sameItems a b
  | obj a, obj b => sameMembers a b
  | _, _ => false

def sameItems : List Json → List Json → Bool
  | [], [] => true
  | x :: rest, y :: others => same x y && sameItems rest others
  | _, _ => false

def sameMembers : List (String × Json) → List (String × Json) → Bool
  | [], [] => true
  | (name, x) :: rest, (other, y) :: others =>
    name == other && same x y && sameMembers rest others
  | _, _ => false

end

/-- The value of a member, the last one if the name is repeated. -/
def member? (name : String) : Json → Option Json
  | obj members => Entries.find? name members.reverse
  | _ => none

end Json

end GridSweep
