import GridSweep.Decode.Basic

namespace GridSweep.Decode

structure Field (α : Type) where
  key : String
  read : Decoder α
  /-- The value when an object has no such member. -/
  absent : Option α
  /-- The value when an array ends before the field. -/
  short : Option α

namespace Field

variable {α : Type}

def needed (key : String) (read : Decoder α) : Field α := ⟨key, read, none, none⟩

/-- A field that an object may leave out or give as `null`; an array has to give it. -/
def optional (key : String) (read : Decoder α) : Field (Option α) :=
  ⟨key, option read, some none, none⟩

/-- A field that may be left out, but not given as `null`. -/
def defaulted (key : String) (read : Decoder α) (value : α) : Field α :=
  ⟨key, read, some value, some value⟩

/-- A field that may be left out anywhere, or be `null`. -/
def free (key : String) (read : Decoder α) : Field (Option α) := defaulted key (option read) none

end Field

/-- A reader of several fields: what is known after some members, what a member adds, and the value
in the end. `take` reads the fields in order from the items of an array, counting them. -/
structure Record (σ α : Type) where
  keys : List String
  start : σ
  put : Context → String → Node → σ → Read σ
  finish : σ → Except Failure α
  take : Context → String → Nat → List Node → Read (α × Nat × List Node)

/-- The field that the name of a member stands for; a number counts the fields where a part was set
aside. -/
def fieldName (keys : List String) : Decoder (Option String) := fun c => behind fun n =>
  match n with
  | .str s => return keys.find? (· == s)
  | .word w => return keys.find? (· == w.text)
  | .num (.int i) =>
    if c.origin = .aside ∧ 0 ≤ i then return keys[i.toNat]?
    else throw (mismatch "field identifier" (.num (.int i)))
  | n => throw (mismatch "field identifier" n)

def elements (n : Nat) : String := if n = 1 then "1 element" else toString n ++ " elements"

/-- What is said of an array that goes on after the last field. -/
def surplus (c : Context) (used : Nat) (rest : List Node) : Read Unit :=
  if rest.isEmpty then return ()
  else match c.origin with
    | .text | .yaml => throw .malformed
    | .value => throw (.wrongLength (used + rest.length) "fewer elements in array")
    | .aside => throw (.wrongLength (used + rest.length) (elements used ++ " in sequence"))

namespace Record

variable {σ τ α β : Type}

def field (f : Field α) : Record (Option α) α where
  keys := [f.key]
  start := none
  put c _ n known :=
    if known.isSome then throw (.duplicateField f.key) else some <$> f.read c n
  finish known := match known <|> f.absent with
    | some x => .ok x
    | none => .error (.missingField f.key)
  take c expected i items := match items, f.short with
    | n :: rest, _ => do return (← f.read c n, i + 1, rest)
    | [], some x => return (x, i + 1, [])
    | [], none => throw (.wrongLength i expected)

def and (r : Record σ α) (s : Record τ β) : Record (σ × τ) (α × β) where
  keys := r.keys ++ s.keys
  start := (r.start, s.start)
  put c key n known := do
    if r.keys.contains key then return (← r.put c key n known.1, known.2)
    else return (known.1, ← s.put c key n known.2)
  finish known := do
    let a ← r.finish known.1
    let b ← s.finish known.2
    return (a, b)
  take c expected i items := do
    let (a, i, items) ← r.take c expected i items
    let (b, i, items) ← s.take c expected i items
    return ((a, b), i, items)

def map (f : α → β) (r : Record σ α) : Record σ β where
  keys := r.keys
  start := r.start
  put := r.put
  finish known := (r.finish known).map f
  take c expected i items := do
    let (x, rest) ← r.take c expected i items
    return (f x, rest)

def members (r : Record σ α) (c : Context) :
    List (Node × Node) → σ → Read σ
  | [], known => return known
  | (k, n) :: rest, known => do
    match ← fieldName r.keys c k with
    | some key => members r c rest (← r.put c key n known)
    | none =>
      skip n
      members r c rest known

def ofMembers (r : Record σ α) (c : Context) (l : List (Node × Node)) : Read α := do
  r.finish (← r.members c l r.start)

def ofItems (r : Record σ α) (expected : String) (c : Context) (items : List Node) : Read α := do
  let whole := expected ++ " with " ++ elements r.keys.length
  let (x, _, rest) ← r.take c whole 0 items
  surplus c (items.length - rest.length) rest
  return x

def decoder (r : Record σ α) (expected : String) : Decoder α := fun c => behind fun n =>
  match n.body with
  | .map l => do r.ofMembers (← c.enter) l
  | .seq items => do
    if c.origin = .yaml then throw .malformed
    else r.ofItems expected (← c.enter) items
  | .void => r.finish r.start
  | .word w => if w.isEmptyPlain then r.finish r.start else throw .malformed
  | n => throw (mismatch expected n)

end Record

end GridSweep.Decode
