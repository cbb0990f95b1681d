import GridSweep.Decode.Failure

/-!
Readers for the plain types: texts, numbers, lists, tables, optional values and JSON values. A reader
takes a node in its context to a value or to the first failure in the order of the text. One reading
may follow only so many aliases.
-/
namespace GridSweep.Decode

/-- A step of a reading. The state says how many aliases may still be followed. -/
abbrev Read := StateT Nat (Except Failure)

abbrev Decoder (α : Type) := Context → Node → Read α

/-- Reads a tree, following so many aliases at most. -/
def decodeTree {α : Type} (d : Decoder α) (c : Context) (aliases : Nat) (n : Node) : Except Failure α :=
  (d c n).run' aliases

def follow : Read Unit := do
  match ← get with
  | 0 => throw .malformed
  | left + 1 => set left

def behind {α : Type} (read : Node → Read α) : Node → Read α
  | .reference n => do
    follow
    read n
  | n => read n

/-- The context inside an array or object, while texts may still nest. -/
def Context.enter (c : Context) : Read Context :=
  if !c.limited then return c
  else if c.depth = 0 then throw .malformed
  else return { c with depth := c.depth - 1 }

def skip : Node → Read Unit
  | .cut => throw .malformed
  | _ => return ()

/-- A text, under the name the type has for it. -/
def textAs (expected : String) : Decoder String := fun _ => behind fun n =>
  match n with
  | .str s => return s
  | .word w => return w.text
  | n => throw (mismatch expected n)

def text : Decoder String := textAs "a string"

def double : Decoder Double := fun _ => behind fun n =>
  match n with
  | .num x => return x.toDouble
  | .word w => match w.typedFloat? with
    | some x => return x
    | none => throw .malformed
  | n => throw (mismatch "f64" n)

structure Width where
  name : String
  low : Int
  high : Int

def Width.u32 : Width := ⟨"u32", 0, 0xffffffff⟩
def Width.i64 : Width := ⟨"i64", -0x8000000000000000, 0x7fffffffffffffff⟩
def Width.usize : Width := ⟨"usize", 0, 0xffffffffffffffff⟩

def Width.holds (w : Width) (i : Int) : Bool := decide (w.low ≤ i) && decide (i ≤ w.high)

def integer (w : Width) : Decoder Int := fun _ => behind fun n =>
  match n with
  | .num (.int i) => if w.holds i then return i else throw (.wrongValue (.num (.int i)) w.name)
  | .word word => match word.typedInt? (decide (w.low < 0)) with
    | some i => if w.holds i then return i else throw .malformed
    | none => throw .malformed
  | n => throw (mismatch w.name n)

def natural (w : Width) : Decoder Nat := fun c n => Int.toNat <$> integer w c n

def option {α : Type} (d : Decoder α) : Decoder (Option α) := fun c => behind fun n =>
  match n with
  | .null | .void => return none
  | .word w => match w.absent? with
    | none => throw .malformed
    | some true => return none
    | some false => some <$> d c n
  | n => some <$> d c n

def each {α : Type} (d : Decoder α) (c : Context) : List Node → Read (List α)
  | [] => return []
  | n :: rest => do
    let x ← d c n
    let xs ← each d c rest
    return x :: xs

def list {α : Type} (d : Decoder α) : Decoder (List α) := fun c => behind fun n =>
  match n.body with
  | .seq items => do each d (← c.enter) items
  | .void => return []
  | .word w => if w.isEmptyPlain then return [] else throw .malformed
  | n => throw (mismatch "a sequence" n)

def eachMember {α : Type} (d : Decoder α) (c : Context) :
    List (Node × Node) → Read (List (String × α))
  | [] => return []
  | (k, n) :: rest => do
    let name ← text c k
    let x ← d c n
    let xs ← eachMember d c rest
    return (name, x) :: xs

def entries {α : Type} (d : Decoder α) : Decoder (List (String × α)) := fun c => behind fun n =>
  match n.body with
  | .map members => do eachMember d (← c.enter) members
  | .void => return []
  | .word w => if w.isEmptyPlain then return [] else throw .malformed
  | n => throw (mismatch "a map" n)

/-- A name that is repeated keeps its first place and takes the last value. -/
def table {α : Type} (d : Decoder α) : Decoder (Table α) := fun c n =>
  Table.ofList <$> entries d c n

def sortedTable {α : Type} (d : Decoder α) : Decoder (SortedTable α) := fun c n =>
  SortedTable.ofList <$> entries d c n

/-- Nothing: `null`, or an empty object in a part that was set aside. -/
def unit : Decoder Unit := fun c => behind fun n =>
  match n with
  | .null | .void => return ()
  | .word w => if w.absent? = some true then return () else throw .malformed
  | .map [] => if c.origin = .aside then return () else throw (mismatch "unit" n)
  | n => throw (mismatch "unit" n)

def memberName : Decoder String := textAs "a string key"

mutual

def value (c : Context) : Node → Read Json
  | .null | .void => return .null
  | .bool b => return .bool b
  | .num (.int i) => return .num (.int i)
  | .num (.float x) => return .ofDouble x
  | .str s => return .str s
  | .word w => match w.value with
    | .null => return .null
    | .bool b => return .bool b
    | .num (.int i) => return .num (.int i)
    | .num (.float x) => return .ofDouble x
    | .text s => return .str s
    | .unreadable => throw .malformed
  | .seq items => do return .arr (← valueItems (← c.enter) items)
  | .map members => do return .obj (Json.sorted (← valueMembers (← c.enter) members))
  | .reference n => do
    follow
    value c n
  | .named _ _ | .unreadable | .misplaced _ | .cut => throw .malformed

def valueItems (c : Context) : List Node → Read (List Json)
  | [] => return []
  | n :: rest => do
    let x ← value c n
    let xs ← valueItems c rest
    return x :: xs

def valueMembers (c : Context) : List (Node × Node) → Read (List (String × Json))
  | [] => return []
  | (k, n) :: rest => do
    let name ← memberName c k
    let x ← value c n
    let xs ← valueMembers c rest
    return (name, x) :: xs

end

mutual

/-- Reads a part in full without a type, to be decoded when its type is known. -/
def aside (c : Context) : Node → Read Node
  | .word w => match Node.ofWord w with
    | .unreadable => throw .malformed
    | n => return n
  | .seq items => do return .seq (← asideItems (← c.enter) items)
  | .map members => do return .map (← asideMembers (← c.enter) members)
  | .reference n => do
    follow
    aside c n
  | .void => return .null
  | .named _ _ | .unreadable | .misplaced _ | .cut => throw .malformed
  | n => return n

def asideItems (c : Context) : List Node → Read (List Node)
  | [] => return []
  | n :: rest => do
    let x ← aside c n
    let xs ← asideItems c rest
    return x :: xs

def asideMembers (c : Context) : List (Node × Node) → Read (List (Node × Node))
  | [] => return []
  | (k, n) :: rest => do
    let k ← aside c k
    let x ← aside c n
    let xs ← asideMembers c rest
    return (k, x) :: xs

end

end GridSweep.Decode
