import GridSweep.Decode.Record

/-!
Readers of alternatives. A variant is named by a text, by the only member of an object, by a member
beside those of its content, or by one of two members with the content in the other.
-/
namespace GridSweep.Decode

/-- The variant that a name stands for; a number counts the variants where a part was set aside. -/
def variantName (known : List String) : Decoder String := fun c => behind fun n =>
  match n with
  | .str s => if known.contains s then return s else throw (.unknownVariant s known)
  | .word w => if known.contains w.text then return w.text else throw (.unknownVariant w.text known)
  | .num (.int i) =>
    if c.origin = .aside ∧ 0 ≤ i then
      match known[i.toNat]? with
      | some name => return name
      | none => throw (.wrongValue (.num (.int i))
          ("variant index 0 <= i < " ++ toString known.length))
    else throw (mismatch "variant identifier" (.num (.int i)))
  | .misplaced n => throw (mismatch "variant identifier" n)
  | n => throw (mismatch "variant identifier" n)

abbrev Content (α : Type) := Context → String → Option Node → Read α

def Content.bare {α : Type} (variant : String → α) : Content α := fun c name n =>
  match n with
  | none => return variant name
  | some n => do
    unit c n
    return variant name

def Content.carried {α : Type} (read : String → Decoder α) : Content α := fun c name n =>
  match n with
  | none => throw (.wrongType .unitVariant "newtype variant")
  | some n => read name c n

/-- The variant given by a text or by the only member of an object. -/
def enumeration {α : Type} (known : List String) (content : Content α) : Decoder α :=
  fun c => behind fun n =>
  match c.origin, n with
  | .yaml, .word w => match w.tag with
    | .named tag => do content c (← variantName known c (.str tag)) (some (.word w.withoutTag))
    | _ => do content c (← variantName known c n) none
  | .yaml, .named tag body => do content c (← variantName known c (.str tag)) (some body)
  | .yaml, _ => throw .malformed
  | _, .str s => do content c (← variantName known c (.str s)) none
  | .text, .map ((k, n) :: rest) => do
    let inner ← c.enter
    let name ← variantName known inner k
    let x ← content inner name (some n)
    if rest.isEmpty then return x else throw .malformed
  | .text, _ => throw .malformed
  | _, .map [(k, n)] => do content c (← variantName known c k) (some n)
  | _, .map _ => throw (.wrongValue .map "map with a single key")
  | _, n => throw (mismatch "string or map" n)

/-- Members seen so far of an object that names its variant: the variant, and the members set aside
for it in reverse. -/
structure Tagged where
  variant : Option String
  content : List (Node × Node)

def taggedMembers (tag : String) (known : List String) (c : Context) :
    List (Node × Node) → Tagged → Read Tagged
  | [], seen => return seen
  | (k, n) :: rest, seen => do
    match ← aside c k with
    | .str s =>
      if s = tag then
        if seen.variant.isSome then throw (.duplicateField tag)
        else taggedMembers tag known c rest { seen with variant := some (← variantName known c n) }
      else
        let n ← aside c n
        taggedMembers tag known c rest { seen with content := (.str s, n) :: seen.content }
    | k =>
      let n ← aside c n
      taggedMembers tag known c rest { seen with content := (k, n) :: seen.content }

/-- The variant named by one member of an object, or by the first item of an array; the rest is its
content. -/
def internallyTagged {α : Type} (expected tag : String) (known : List String)
    (content : String → Decoder α) : Decoder α := fun c => behind fun n =>
  match n with
  | .map members => do
    let seen ← taggedMembers tag known (← c.enter) members ⟨none, []⟩
    match seen.variant with
    | none => throw (.missingField tag)
    | some name => content name c.setAside (.map seen.content.reverse)
  | .seq items => do
    let inner ← c.enter
    match items with
    | [] => throw (.missingField tag)
    | first :: rest =>
      let name ← variantName known inner first
      content name c.setAside (.seq (← asideItems inner rest))
  | n => throw (mismatch expected n)

/-- The next member that is the tag or the content, whether it is the tag, and what follows it. -/
def relevant (tag content : String) (c : Context) :
    List (Node × Node) → Read (Option (Bool × Node × List (Node × Node)))
  | [] => return none
  | (k, n) :: rest => do
    match ← fieldName [tag, content] c k with
    | some key => return some (key == tag, n, rest)
    | none =>
      skip n
      relevant tag content c rest

/-- Neither member may come a second time. -/
def noneRelevant (tag content : String) (c : Context) (members : List (Node × Node)) :
    Read Unit := do
  match ← relevant tag content c members with
  | none => return ()
  | some (isTag, _) => throw (.duplicateField (if isTag then tag else content))

def variantTag (known : List String) : Decoder String := enumeration known (.bare id)

/-- The two members in either order; content that comes first is set aside. -/
def adjacentMembers {α : Type} (tag content : String) (known : List String)
    (read : String → Decoder α) (c : Context) (members : List (Node × Node)) : Read α := do
  match ← relevant tag content c members with
  | none => throw (.missingField tag)
  | some (true, n, rest) =>
    let name ← variantTag known c n
    match ← relevant tag content c rest with
    | none => throw (.missingField content)
    | some (true, _) => throw (.duplicateField tag)
    | some (false, n, rest) =>
      let x ← read name c n
      noneRelevant tag content c rest
      return x
  | some (false, n, rest) =>
    let early ← aside c n
    match ← relevant tag content c rest with
    | none => throw (.missingField tag)
    | some (false, _) => throw (.duplicateField content)
    | some (true, n, rest) =>
      let name ← variantTag known c n
      let x ← read name c.setAside early
      noneRelevant tag content c rest
      return x

/-- The variant named by one member of an object with its content in another; or an array of the
two. -/
def adjacentlyTagged {α : Type} (expected tag content : String) (known : List String)
    (read : String → Decoder α) : Decoder α := fun c => behind fun n =>
  match n.body with
  | .map members => do adjacentMembers tag content known read (← c.enter) members
  | .seq items => do
    if c.origin = .yaml then throw .malformed
    let inner ← c.enter
    match items with
    | [] => throw (.wrongLength 0 expected)
    | first :: rest =>
      let name ← variantName known inner first
      match rest with
      | [] => throw (.wrongLength 1 expected)
      | second :: rest =>
        let x ← read name inner second
        surplus inner 2 rest
        return x
  | n => throw (mismatch expected n)

end GridSweep.Decode
