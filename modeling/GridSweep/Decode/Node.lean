import GridSweep.Json.Basic
import GridSweep.Yaml.Word

/-!
Inputs as trees. A `Node` is a value as it stands in a text: members in order with repetitions, and
the places marked where the text cannot be read or goes on at another node. What is wrong with a text
shows only when a reader arrives there, so a reader meets faults in the order of the text.
-/
namespace GridSweep.Decode

inductive Node where
  | null
  | bool (b : Bool)
  | num (n : Number)
  | str (s : String)
  /-- A scalar whose meaning depends on what the reader wants. -/
  | word (w : Yaml.Word)
  /-- A collection that carries a name of its own. -/
  | named (name : String) (body : Node)
  | seq (items : List Node)
  | map (members : List (Node × Node))
  /-- Another node of the document, which an alias stands for. -/
  | reference (n : Node)
  /-- A document with nothing in it. -/
  | void
  /-- A value that may be passed over but not read. -/
  | unreadable
  /-- A value that is no text where the name of a member has to stand. -/
  | misplaced (n : Node)
  /-- The text breaks off or goes wrong here. -/
  | cut

namespace Node

instance : Inhabited Node := ⟨null⟩

def body : Node → Node
  | named _ n => n
  | n => n

mutual

def ofJson : Json → Node
  | .null => null
  | .bool b => bool b
  | .num n => num n
  | .str s => str s
  | .arr items => seq (ofItems items)
  | .obj members => map (ofMembers members)

def ofItems : List Json → List Node
  | [] => []
  | x :: rest => ofJson x :: ofItems rest

def ofMembers : List (String × Json) → List (Node × Node)
  | [] => []
  | (name, x) :: rest => (str name, ofJson x) :: ofMembers rest

end

/-- A scalar as an untyped reader takes it. -/
def ofWord (w : Yaml.Word) : Node :=
  match w.value with
  | .null => null
  | .bool b => bool b
  | .num n => num n
  | .text s => str s
  | .unreadable => unreadable

end Node

/-- Where a tree comes from: a JSON text, a JSON value, a part of an input set aside until the rest
was seen, or a YAML document. -/
inductive Origin where
  | text
  | value
  | aside
  | yaml
  deriving DecidableEq

/-- What a reader knows about its place. -/
structure Context where
  origin : Origin
  /-- How many more arrays and objects may be entered; texts limit their nesting. -/
  depth : Nat

namespace Context

def text : Context := ⟨.text, 127⟩
def value : Context := ⟨.value, 0⟩
def yaml : Context := ⟨.yaml, 128⟩

/-- The context for a part that was set aside; it was entered to its full depth before. -/
def setAside (c : Context) : Context := { c with origin := .aside }

def limited (c : Context) : Bool := c.origin == .text || c.origin == .yaml

end Context

end GridSweep.Decode
