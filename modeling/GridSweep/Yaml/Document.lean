import GridSweep.Decode.Basic
import GridSweep.Yaml.Token
import GridSweep.Yaml.Tree

/-!
YAML texts as documents. An anchor gets a number from its node's place among the names known so far,
so that a name given a second time can take the number of another one; an alias takes the number that
its name has where it stands, and leads to the last node with that number. A text holds one document,
or none at all.
-/
namespace GridSweep.Yaml

open GridSweep.Decode

/-- What is left of the tokens, and what was met before: handles of tags, the numbers of anchors, and
anchored nodes with their numbers in the order in which they begin. -/
structure Builder where
  tokens : List Token
  expansions : List (String × List UInt8)
  anchors : List (String × Nat)
  anchored : Array (Nat × Tree)

abbrev Build := StateT Builder Option

namespace Build

def peek : Build (Option Token) := return (← get).tokens.head?

def pop : Build Unit := modify fun b => { b with tokens := b.tokens.tail }

/-- Whether the next token is one of these; the end counts as none of them. -/
def sees (ts : List Token) : Build Bool := return (← peek).any ts.contains

/-- The properties before a node: its anchor and its full tag, in either order. -/
structure Properties where
  anchor : Option String
  tag : Option (String × List UInt8)

def takeAnchor : Build (Option String) := do
  match ← peek with
  | some (.anchor name) => pop; return some name
  | _ => return none

def takeTag : Build (Option (String × List UInt8)) := do
  match ← peek with
  | some (.tag handle suffix) => pop; return some (handle, suffix)
  | _ => return none

def properties : Build Properties := do
  match ← takeAnchor with
  | some anchor => return ⟨some anchor, ← takeTag⟩
  | none =>
    let tag ← takeTag
    return ⟨← if tag.isSome then takeAnchor else pure none, tag⟩

def octets (s : String) : List UInt8 := s.toUTF8.toList

/-- The expansions of the handles that need no directive. -/
def standard : List (String × List UInt8) :=
  [("!", octets "!"), ("!!", octets "tag:yaml.org,2002:")]

def fullTag : Option (String × List UInt8) → Build (Option (List UInt8))
  | none => return none
  | some (handle, suffix) => do
    if handle.isEmpty then return some suffix
    match Entries.find? handle ((← get).expansions ++ standard) with
    | some expansion => return some (expansion ++ suffix)
    | none => failure

/-- A tag that is local to the document begins with an exclamation mark. Its name is what follows, if
that is UTF-8; the mark alone is a name itself. -/
def localTag : List UInt8 → Tag
  | [] => .foreign
  | mark :: rest =>
    if mark != '!'.toUInt8 then .foreign
    else match String.fromUTF8? (ByteArray.mk (if rest.isEmpty then [mark] else rest).toArray) with
      | some name => .named name
      | none => .nameless

def tagOf : Option (List UInt8) → Tag
  | none => .untagged
  | some tag =>
    if tag == octets "tag:yaml.org,2002:bool" then .bool
    else if tag == octets "tag:yaml.org,2002:int" then .int
    else if tag == octets "tag:yaml.org,2002:float" then .float
    else if tag == octets "tag:yaml.org,2002:null" then .null
    else localTag tag

def empty (tag : Tag) : Tree := .word ⟨"", .plain, tag⟩

def emptyNode : Tree := empty .untagged

def useAlias (name : String) : Build Tree := do
  match Entries.find? name (← get).anchors with
  | none => failure
  | some number => return .reference number

/-- Builds a node under an anchor. Its place among the anchored nodes is where it begins. -/
def anchored (anchor : Option String) (build : Build Tree) : Build Tree := do
  match anchor with
  | none => build
  | some name =>
    let b ← get
    let number := b.anchors.length
    let place := b.anchored.size
    set { b with
      anchors := Entries.put name number b.anchors
      anchored := b.anchored.push (number, emptyNode) }
    let t ← build
    modify fun b => { b with anchored := b.anchored.setIfInBounds place (number, t) }
    return t

mutual

/-- A node. In a block it may be a block; as the value of a member it may be a sequence that is not
indented. -/
def node : Nat → Bool → Bool → Build Tree
  | 0, _, _ => failure
  | n + 1, inBlock, asValue => do
    match ← peek with
    | some (.reference name) => pop; useAlias name
    | _ =>
      let p ← properties
      let tag := tagOf (← fullTag p.tag)
      anchored p.anchor (content n inBlock asValue (p.tag.isSome || p.anchor.isSome) tag)

/-- What follows the properties of a node; nothing may follow if there are any. -/
def content : Nat → Bool → Bool → Bool → Tag → Build Tree
  | 0, _, _, _, _ => failure
  | n + 1, inBlock, asValue, marked, tag => do
    match ← peek with
    | some (.scalar text style) => pop; return .word ⟨text, style, tag⟩
    | some .flowSequence => pop; return .seq tag.name? (← flowItems n true)
    | some .flowMapping => pop; return .map tag.name? (← flowMembers n true)
    | t =>
      if t = some .entry && asValue then return .seq tag.name? (← looseItems n)
      else if t = some .blockSequence && inBlock then
        pop
        return .seq tag.name? (← blockItems n)
      else if t = some .blockMapping && inBlock then
        pop
        return .map tag.name? (← blockMembers n)
      else if marked then return empty tag
      else failure

def nodeUnless : Nat → List Token → Bool → Bool → Build Tree
  | 0, _, _, _ => failure
  | n + 1, stops, inBlock, asValue => do
    if ← sees stops then return emptyNode else node n inBlock asValue

def blockItems : Nat → Build (List Tree)
  | 0 => failure
  | n + 1 => do
    match ← peek with
    | some .entry =>
      pop
      let x ← nodeUnless n [.entry, .blockEnd] true false
      return x :: (← blockItems n)
    | some .blockEnd => pop; return []
    | _ => failure

def looseItems : Nat → Build (List Tree)
  | 0 => failure
  | n + 1 => do
    match ← peek with
    | some .entry =>
      pop
      let x ← nodeUnless n [.entry, .key, .value, .blockEnd] true false
      return x :: (← looseItems n)
    | _ => return []

def blockMembers : Nat → Build (List (Tree × Tree))
  | 0 => failure
  | n + 1 => do
    match ← peek with
    | some .key =>
      pop
      let k ← nodeUnless n [.key, .value, .blockEnd] true true
      let v ← blockValue n
      return (k, v) :: (← blockMembers n)
    | some .blockEnd => pop; return []
    | _ => failure

def blockValue : Nat → Build Tree
  | 0 => failure
  | n + 1 => do
    match ← peek with
    | some .value => pop; nodeUnless n [.key, .value, .blockEnd] true true
    | _ => return emptyNode

/-- The items of a flow sequence, to its end. A key makes an item a mapping of one member. -/
def flowItems : Nat → Bool → Build (List Tree)
  | 0, _ => failure
  | n + 1, first => do
    if ← sees [.flowSequenceEnd] then pop; return []
    if !first then
      if ← sees [.comma] then pop else failure
    match ← peek with
    | some .flowSequenceEnd => pop; return []
    | some .key =>
      pop
      let k ← pairKey n
      let v ← pairValue n
      return .map none [(k, v)] :: (← flowItems n false)
    | _ =>
      let x ← node n false false
      return x :: (← flowItems n false)

/-- The key of a pair among the items of a sequence; an empty one takes the token after it along. -/
def pairKey : Nat → Build Tree
  | 0 => failure
  | n + 1 => do
    if ← sees [.value, .comma, .flowSequenceEnd] then
      pop
      return emptyNode
    else node n false false

def pairValue : Nat → Build Tree
  | 0 => failure
  | n + 1 => do
    match ← peek with
    | some .value => pop; nodeUnless n [.comma, .flowSequenceEnd] false false
    | _ => return emptyNode

def flowMembers : Nat → Bool → Build (List (Tree × Tree))
  | 0, _ => failure
  | n + 1, first => do
    if ← sees [.flowMappingEnd] then pop; return []
    if !first then
      if ← sees [.comma] then pop else failure
    match ← peek with
    | some .flowMappingEnd => pop; return []
    | some .key =>
      pop
      let k ← nodeUnless n [.value, .comma, .flowMappingEnd] false false
      let v ← flowValue n
      return (k, v) :: (← flowMembers n false)
    | _ =>
      let k ← node n false false
      return (k, emptyNode) :: (← flowMembers n false)

def flowValue : Nat → Build Tree
  | 0 => failure
  | n + 1 => do
    match ← peek with
    | some .value => pop; nodeUnless n [.comma, .flowMappingEnd] false false
    | _ => return emptyNode

end

/-- The directives before a document: one version at most, and each handle once. -/
def directives : Nat → Bool → Build Unit
  | 0, _ => failure
  | n + 1, versioned => do
    match ← peek with
    | some (.version major minor) =>
      if versioned || major != 1 || (minor != 1 && minor != 2) then failure
      pop
      directives n true
    | some (.tagPrefix handle expansion) =>
      let b ← get
      if (Entries.find? handle b.expansions).isSome then failure
      set { b with
        tokens := b.tokens.tail
        expansions := (handle, expansion) :: b.expansions }
      directives n versioned
    | _ => return ()

/-- The tokens after the first document must be marks of its end. -/
def finish : Build Unit := do
  if (← get).tokens.all (· == .documentEnd) then return () else failure

def afterStart (fuel : Nat) : Build Tree := do
  match ← peek with
  | none | some (.version _ _) | some (.tagPrefix _ _) | some .documentStart
  | some .documentEnd => return emptyNode
  | _ => node fuel true false

/-- The root of a document, if there is one. Directives need a mark of its start after them. -/
def root (fuel : Nat) : Build (Option Tree) := do
  match ← peek with
  | none => return none
  | some (.version _ _) | some (.tagPrefix _ _) | some .documentStart =>
    directives fuel false
    if ← sees [.documentStart] then
      pop
      let t ← afterStart fuel
      finish
      return t
    else failure
  | _ =>
    let t ← node fuel true false
    finish
    return t

end Build

/-- Anchored nodes by their numbers; of several the one that begins last. Those that no alias stands
for are left out. -/
def byNumber (aliases : List Nat) (anchored : Array (Nat × Tree)) : Array Tree :=
  let used := aliases.foldl (·.setIfInBounds · true) (Array.replicate anchored.size false)
  anchored.foldl
    (fun trees (number, t) => if used.getD number false then trees.setIfInBounds number t else trees)
    (Array.replicate anchored.size Build.emptyNode)

/-- The only document in a text, or none in an empty text; a failure if the text is not YAML. -/
def Document.ofText? (s : String) : Option (Option Document) := do
  let tokens ← Token.ofText? s.toList
  let (root, b) ← (Build.root (4 * tokens.length + 16)).run ⟨tokens, [], [], #[]⟩
  return root.map fun t => ⟨t, byNumber t.aliases b.anchored⟩

def decodeText {α : Type} (d : Decoder α) (s : String) : Except Failure α :=
  match Document.ofText? s with
  | none => .error .malformed
  | some none => decodeTree d .yaml 0 .void
  | some (some document) => decodeTree d .yaml document.aliasLimit document.node

def decodeBytes {α : Type} (d : Decoder α) (bytes : ByteArray) : Except Failure α :=
  match String.fromUTF8? bytes with
  | some s => decodeText d s
  | none => .error .malformed

end GridSweep.Yaml
