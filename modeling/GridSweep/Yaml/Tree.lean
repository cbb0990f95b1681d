import GridSweep.Decode.Node

/-!
YAML documents as written: trees in which an alias is a number, and the nodes that the numbers stand
for. A node may lie in itself, so `Document.node` follows aliases inside aliases only as deep as a
reader can go.
-/
namespace GridSweep.Yaml

open GridSweep.Decode

inductive Tree where
  | word (w : Word)
  /-- A sequence, with the local name it carries. -/
  | seq (name : Option String) (items : List Tree)
  | map (name : Option String) (members : List (Tree × Tree))
  | reference (number : Nat)

namespace Tree

instance : Inhabited Tree := ⟨reference 0⟩

mutual

/-- How many marks a tree takes in a stream: one for a scalar or an alias, two around a collection. -/
def size : Tree → Nat
  | word _ | reference _ => 1
  | seq _ items => sizeItems items + 2
  | map _ members => sizeMembers members + 2

def sizeItems : List Tree → Nat
  | [] => 0
  | t :: rest => size t + sizeItems rest

def sizeMembers : List (Tree × Tree) → Nat
  | [] => 0
  | (k, t) :: rest => size k + size t + sizeMembers rest

end

mutual

def aliases : Tree → List Nat
  | word _ => []
  | reference number => [number]
  | seq _ items => aliasesItems items
  | map _ members => aliasesMembers members

def aliasesItems : List Tree → List Nat
  | [] => []
  | t :: rest => aliases t ++ aliasesItems rest

def aliasesMembers : List (Tree × Tree) → List Nat
  | [] => []
  | (k, t) :: rest => aliases k ++ aliases t ++ aliasesMembers rest

end

def underName : Option String → Node → Node
  | none, n => n
  | some name, n => .named name n

mutual

/-- The tree as an input, the nodes behind aliases being known. -/
def node (behind : Nat → Node) : Tree → Node
  | word w => .word w
  | reference number => .reference (behind number)
  | seq name items => underName name (.seq (nodeItems behind items))
  | map name members => underName name (.map (nodeMembers behind members))

def nodeItems (behind : Nat → Node) : List Tree → List Node
  | [] => []
  | t :: rest => node behind t :: nodeItems behind rest

def nodeMembers (behind : Nat → Node) : List (Tree × Tree) → List (Node × Node)
  | [] => []
  | (k, t) :: rest => (node behind k, node behind t) :: nodeMembers behind rest

end

end Tree

/-- A document: its root, and the nodes that aliases stand for by number. -/
structure Document where
  root : Tree
  anchored : Array Tree

namespace Document

/-- The node at a place of a table; what lies beyond its end cannot be read. -/
def nodeAt (nodes : Array Node) (number : Nat) : Node := nodes.getD number .unreadable

/-- The nodes behind aliases, where aliases inside them can be followed so many levels deep. -/
def behind (d : Document) : Nat → Array Node
  | 0 => #[]
  | levels + 1 =>
    let inner := d.behind levels
    d.anchored.map (Tree.node (nodeAt inner))

/-- A reader goes into a collection between two aliases, so no more levels are needed than collections
may nest; and a single one if no alias lies behind another. -/
def levels (d : Document) : Nat := if d.anchored.any (!·.aliases.isEmpty) then Context.yaml.depth else 1

def node (d : Document) : Node := d.root.node (nodeAt (d.behind d.levels))

/-- How many aliases may be followed in reading the document: a hundred for each mark. -/
def aliasLimit (d : Document) : Nat := 100 * d.root.size

end Document

end GridSweep.Yaml
