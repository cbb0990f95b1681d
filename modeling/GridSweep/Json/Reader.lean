import GridSweep.Decode.Basic

/-!
Reading JSON text. A machine takes one character after the other and keeps the open arrays and
objects on a stack; nesting costs no depth here. A text that goes wrong gives the tree up to that
place, so that a typed reader can still report what it finds before it.
-/
namespace GridSweep.Json

open GridSweep.Decode

def isHighSurrogate (n : Nat) : Bool := 0xD800 ≤ n && n ≤ 0xDBFF
def isLowSurrogate (n : Nat) : Bool := 0xDC00 ≤ n && n ≤ 0xDFFF

def ofSurrogates (high low : Nat) : Char :=
  Char.ofNat (0x10000 + (high - 0xD800) * 0x400 + (low - 0xDC00))

/-- A string read so far: its characters in reverse, the first half of a pair of surrogates when the
second one has to follow, and whether a surrogate stood alone. -/
structure Quote where
  text : List Char
  half : Option Nat
  spoiled : Bool

namespace Quote

def empty : Quote := ⟨[], none, false⟩

def addChar (q : Quote) (c : Char) : Quote :=
  if q.half.isSome then { q with spoiled := true } else { q with text := c :: q.text }

def addUnit (q : Quote) (n : Nat) : Quote :=
  match q.half with
  | some high =>
    if isLowSurrogate n then { q with text := ofSurrogates high n :: q.text, half := none }
    else { q with spoiled := true }
  | none =>
    if isHighSurrogate n then { q with half := some n }
    else if isLowSurrogate n then { q with spoiled := true }
    else { q with text := Char.ofNat n :: q.text }

def node (q : Quote) : Node :=
  if q.spoiled || q.half.isSome then .unreadable else .str (String.ofList q.text.reverse)

end Quote

inductive Escape where
  | outside
  | begun
  /-- After `\u`: how many digits are still to come, and the value so far. -/
  | code (left : Nat) (value : Nat)

inductive Place where
  | minus
  | zero
  | whole
  | point
  | fraction
  | mark
  | sign
  | exponent

/-- A numeral read so far; digits are in reverse. -/
structure Begun where
  place : Place
  negative : Bool
  whole : List Nat
  fraction : Option (List Nat)
  exponent : Option (Bool × List Nat)

/-- An array or object that is still open, its parts in reverse. -/
inductive Frame where
  | items (done : List Node)
  /-- The key is there from the end of its string until its value is complete. -/
  | members (done : List (Node × Node)) (key : Option Node)
  /-- An object that begins with another value than the name of a member. -/
  | misplaced

inductive Mode where
  | value
  /-- The first item of an array, or its end. -/
  | item
  /-- The first member of an object, or its end. -/
  | member
  /-- The name of a member has to come. -/
  | name
  | colon
  /-- A part of an array or object is complete. -/
  | after
  | quote (q : Quote) (escape : Escape)
  | numeral (n : Begun)
  /-- The rest of `null`, `true` or `false`. -/
  | literal (rest : List Char) (node : Node)
  /-- The value is complete; `clean` while only blanks follow. -/
  | done (root : Node) (clean : Bool)

structure Machine where
  stack : List Frame
  mode : Mode

namespace Machine

def start : Machine := ⟨[], .value⟩

/-- The tree of a text that goes wrong inside the open arrays and objects. -/
def cutOff : List Frame → Node → Node
  | [], inner => inner
  | .items done :: rest, inner => cutOff rest (.seq (done.reverse ++ [inner, .cut]))
  | .members done key :: rest, inner =>
    cutOff rest (.map (done.reverse ++ [(key.getD .cut, inner), (.cut, .cut)]))
  | .misplaced :: rest, _ => cutOff rest (.map [(.cut, .cut)])

def fault (stack : List Frame) : Machine := ⟨[], .done (cutOff stack .cut) false⟩

def deliver (stack : List Frame) (n : Node) : Machine :=
  match stack with
  | [] => ⟨[], .done n true⟩
  | .items done :: rest => ⟨.items (n :: done) :: rest, .after⟩
  | .members done key :: rest => ⟨.members ((key.getD .cut, n) :: done) none :: rest, .after⟩
  | .misplaced :: rest => fault (.members [] (some (.misplaced n)) :: rest)

/-- A string is complete: the name of a member when one is due, else a value. -/
def deliverText (stack : List Frame) (n : Node) : Machine :=
  match stack with
  | .members done none :: rest => ⟨.members done (some n) :: rest, .colon⟩
  | stack => deliver stack n

def isSpace (c : Char) : Bool := c == ' ' || c == '\n' || c == '\t' || c == '\r'

def digit? (c : Char) : Option Nat := if c.isDigit then some (c.toNat - '0'.toNat) else none

def hexDigit? (c : Char) : Option Nat :=
  if c.isDigit then some (c.toNat - '0'.toNat)
  else if 'a' ≤ c ∧ c ≤ 'f' then some (c.toNat - 'a'.toNat + 10)
  else if 'A' ≤ c ∧ c ≤ 'F' then some (c.toNat - 'A'.toNat + 10)
  else none

def opening (stack : List Frame) (c : Char) : Machine :=
  if c == '[' then ⟨.items [] :: stack, .item⟩
  else if c == '\x7b' then ⟨.members [] none :: stack, .member⟩
  else if c == '"' then ⟨stack, .quote .empty .outside⟩
  else if c == 'n' then ⟨stack, .literal ['u', 'l', 'l'] .null⟩
  else if c == 't' then ⟨stack, .literal ['r', 'u', 'e'] (.bool true)⟩
  else if c == 'f' then ⟨stack, .literal ['a', 'l', 's', 'e'] (.bool false)⟩
  else if c == '-' then ⟨stack, .numeral ⟨.minus, true, [], none, none⟩⟩
  else match digit? c with
    | some 0 => ⟨stack, .numeral ⟨.zero, false, [0], none, none⟩⟩
    | some d => ⟨stack, .numeral ⟨.whole, false, [d], none, none⟩⟩
    | none => fault stack

/-- A character other than a quote where the name of the first member should begin. -/
def openingName (stack : List Frame) (c : Char) : Machine :=
  match stack with
  | .members [] none :: rest =>
    if c == '[' then deliver (.misplaced :: rest) (.seq [])
    else if c == '\x7b' then deliver (.misplaced :: rest) (.map [])
    else opening (.misplaced :: rest) c
  | stack => fault stack

/-- A character between the parts of an array or object. -/
def between (stack : List Frame) (c : Char) : Machine :=
  match stack with
  | .items done :: rest =>
    if c == ',' then ⟨stack, .value⟩
    else if c == ']' then deliver rest (.seq done.reverse)
    else fault stack
  | .members done _ :: rest =>
    if c == ',' then ⟨stack, .name⟩
    else if c == '\x7d' then deliver rest (.map done.reverse)
    else fault stack
  | .misplaced :: _ | [] => fault stack

/-- Whether a character stands for itself in a string. -/
def isVerbatim (c : Char) : Bool := c != '"' && c != '\\' && 0x20 ≤ c.toNat

def escaped? (c : Char) : Option Char :=
  if c == '"' || c == '\\' || c == '/' then some c
  else if c == 'b' then some '\x08'
  else if c == 'f' then some '\x0c'
  else if c == 'n' then some '\n'
  else if c == 'r' then some '\r'
  else if c == 't' then some '\t'
  else none

def inText (stack : List Frame) (q : Quote) (escape : Escape) (c : Char) : Machine :=
  match escape with
  | .outside =>
    if isVerbatim c then ⟨stack, .quote (q.addChar c) .outside⟩
    else if c == '"' then deliverText stack q.node
    else if c == '\\' then ⟨stack, .quote q .begun⟩
    else fault stack
  | .begun => match escaped? c with
    | some d => ⟨stack, .quote (q.addChar d) .outside⟩
    | none => if c == 'u' then ⟨stack, .quote q (.code 3 0)⟩ else fault stack
  | .code left value => match hexDigit? c, left with
    | none, _ => fault stack
    | some d, 0 => ⟨stack, .quote (q.addUnit (value * 16 + d)) .outside⟩
    | some d, left + 1 => ⟨stack, .quote q (.code left (value * 16 + d))⟩

def numeralNode? (b : Begun) : Option Node :=
  match b.place with
  | .minus | .point | .mark | .sign => none
  | _ =>
    let n : Numeral := ⟨b.negative, b.whole.reverse, b.fraction.map List.reverse,
      b.exponent.map fun e => (e.1, e.2.reverse)⟩
    some (match n.number? with
      | some x => .num x
      | none => .unreadable)

def extend? (b : Begun) (c : Char) : Option Begun :=
  let toExponent := c == 'e' || c == 'E'
  match b.place, digit? c with
  | .minus, some 0 => some { b with place := .zero, whole := [0] }
  | .minus, some d => some { b with place := .whole, whole := [d] }
  | .whole, some d => some { b with whole := d :: b.whole }
  | .point, some d => some { b with place := .fraction, fraction := some [d] }
  | .fraction, some d => some { b with fraction := b.fraction.map (d :: ·) }
  | .mark, some d => some { b with place := .exponent, exponent := some (false, [d]) }
  | .sign, some d =>
    some { b with place := .exponent, exponent := b.exponent.map fun e => (e.1, d :: e.2) }
  | .exponent, some d => some { b with exponent := b.exponent.map fun e => (e.1, d :: e.2) }
  | .mark, none =>
    if c == '+' || c == '-' then
      some { b with place := .sign, exponent := some (c == '-', []) }
    else none
  | .zero, none | .whole, none =>
    if c == '.' then some { b with place := .point }
    else if toExponent then some { b with place := .mark }
    else none
  | .fraction, none => if toExponent then some { b with place := .mark } else none
  | _, _ => none

def afterValue (m : Machine) (c : Char) : Machine :=
  match m.mode with
  | .done root clean => ⟨[], .done root (clean && isSpace c)⟩
  | _ => if isSpace c then m else between m.stack c

/-- A character in or right after a numeral. A digit cannot follow a leading zero. -/
def inNumeral (stack : List Frame) (b : Begun) (c : Char) : Machine :=
  match extend? b c with
  | some b => ⟨stack, .numeral b⟩
  | none => match numeralNode? b with
    | some n => if c.isDigit then fault stack else afterValue (deliver stack n) c
    | none => fault stack

def step (m : Machine) (c : Char) : Machine :=
  match m.mode with
  | .value => if isSpace c then m else opening m.stack c
  | .item =>
    if isSpace c then m
    else if c == ']' then between m.stack c
    else opening m.stack c
  | .member =>
    if isSpace c then m
    else if c == '\x7d' then between m.stack c
    else if c == '"' then ⟨m.stack, .quote .empty .outside⟩
    else openingName m.stack c
  | .name =>
    if isSpace c then m
    else if c == '"' then ⟨m.stack, .quote .empty .outside⟩
    else fault m.stack
  | .colon =>
    if isSpace c then m
    else if c == ':' then ⟨m.stack, .value⟩
    else fault m.stack
  | .after | .done _ _ => afterValue m c
  | .quote q escape => inText m.stack q escape c
  | .numeral b => inNumeral m.stack b c
  | .literal rest n => match rest with
    | [] => fault m.stack
    | [d] => if c == d then deliver m.stack n else fault m.stack
    | d :: rest => if c == d then ⟨m.stack, .literal rest n⟩ else fault m.stack

mutual

def run (m : Machine) : List Char → Machine
  | [] => m
  | c :: rest => match step m c with
    | ⟨stack, .quote ⟨text, none, false⟩ .outside⟩ => runText stack text rest
    | m => run m rest

/-- The same inside a string in which nothing is amiss. -/
def runText (stack : List Frame) (text : List Char) : List Char → Machine
  | [] => ⟨stack, .quote ⟨text, none, false⟩ .outside⟩
  | c :: rest =>
    if isVerbatim c then runText stack (c :: text) rest
    else run (inText stack ⟨text, none, false⟩ .outside c) rest

end

theorem run_runText_eq (cs : List Char) : (∀ m, run m cs = cs.foldl step m) ∧
    ∀ stack text, runText stack text cs =
      cs.foldl step ⟨stack, .quote ⟨text, none, false⟩ .outside⟩ := by
  induction cs with
  | nil => exact ⟨fun _ => rfl, fun _ _ => rfl⟩
  | cons c rest ih =>
    refine ⟨fun m => ?_, fun stack text => ?_⟩
    · rw [run, List.foldl_cons]
      split
      · next h => rw [ih.2, h]
      · exact ih.1 _
    · rw [runText, List.foldl_cons]
      split
      · next h => simp [ih.2, step, inText, h, Quote.addChar]
      · exact ih.1 _

theorem run_eq_foldl (m : Machine) (cs : List Char) : run m cs = cs.foldl step m :=
  (run_runText_eq cs).1 m

end Machine

/-- A text as far as it could be read: its tree, and whether nothing is wrong after it. -/
structure Document where
  root : Node
  clean : Bool

namespace Document

def ofMachine (m : Machine) : Document :=
  let ended := match m.mode with
    | .numeral b => match Machine.numeralNode? b with
      | some n => Machine.deliver m.stack n
      | none => m
    | _ => m
  match ended.mode with
  | .done root clean => ⟨root, clean⟩
  | _ => ⟨Machine.cutOff ended.stack .cut, false⟩

def ofText (s : String) : Document := ofMachine (Machine.start.run s.toList)

/-- Reads the text as a type: faults in the value come before faults after it. -/
def decode {α : Type} (document : Document) (d : Decoder α) : Except Failure α := do
  let x ← decodeTree d .text 0 document.root
  if document.clean then return x else .error .malformed

end Document

def decodeText {α : Type} (d : Decoder α) (s : String) : Except Failure α :=
  (Document.ofText s).decode d

def decodeValue {α : Type} (d : Decoder α) (j : Json) : Except Failure α :=
  decodeTree d .value 0 (.ofJson j)

/-- The value of a JSON text, in normal form; none if the text is not JSON. -/
def parse? (s : String) : Option Json := (decodeText value s).toOption

def parseBytes? (bytes : ByteArray) : Option Json := (String.fromUTF8? bytes).bind parse?

end GridSweep.Json
