import GridSweep.Yaml.Source
import GridSweep.Yaml.Word

/-!
The texts of YAML scalars. Line breaks inside plain and quoted scalars fold: a single one becomes a
space, of several the first is dropped. Block scalars keep their lines, or fold them likewise.
-/
namespace GridSweep.Yaml

/-- Blanks and line breaks between two words of a scalar, characters in reverse. -/
structure Gap where
  blanks : List Char
  broken : Bool
  first : Option Char
  further : List Char

namespace Gap

def none : Gap := ⟨[], false, .none, []⟩

def fold (g : Gap) : List Char :=
  if !g.broken then g.blanks
  else if g.first == some '\n' then (if g.further.isEmpty then [' '] else g.further)
  else g.further ++ g.first.toList

def addBreak (g : Gap) (c : Option Char) : Gap :=
  if g.broken then { g with further := c.toList ++ g.further }
  else { g with blanks := [], broken := true, first := c }

/-- Takes blanks and line breaks. In a plain scalar a tab may not stand before column `indent`. -/
def take (indent : Option Nat) : Nat → Source → Gap → Option (Source × Gap)
  | 0, s, g => some (s, g)
  | n + 1, s, g =>
    match s.head? with
    | some c =>
      if isBlankChar c then
        if c == '\t' && g.broken && indent.any (s.column < ·) then .none
        else take indent n (s.skip 1) (if g.broken then g else { g with blanks := c :: g.blanks })
      else if isBreak c then
        let (b, s) := s.takeBreak
        take indent n s (g.addBreak b)
      else some (s, g)
    | .none => some (s, g)

end Gap

namespace Plain

def ends (inFlow : Bool) : List Char → Bool
  | ':' :: rest => endsWord rest
  | c :: _ => inFlow && (c == ',' || c == '[' || c == ']' || c == '\x7b' || c == '\x7d')
  | [] => true

/-- In a flow collection a colon may not stand right before an indicator. -/
def clashes (inFlow : Bool) : List Char → Bool
  | ':' :: c :: _ =>
    inFlow && (c == ',' || c == '?' || c == '[' || c == ']' || c == '\x7b' || c == '\x7d')
  | _ => false

/-- Takes a word; the text so far is in reverse, and the gap before the word is added with its first
character. -/
def takeWord (inFlow : Bool) : Nat → Source → List Char → Gap →
    Option (Source × List Char × Gap)
  | 0, s, text, g => some (s, text, g)
  | n + 1, s, text, g =>
    if endsWord s.rest then some (s, text, g)
    else if clashes inFlow s.rest then none
    else if ends inFlow s.rest then some (s, text, g)
    else match s.head? with
      | some c => takeWord inFlow n (s.skip 1) (c :: g.fold ++ text) .none
      | none => some (s, text, g)

/-- Takes words and the gaps between them as long as the lines are indented enough. Gives whether a
line break was passed at the end. -/
def takeWords (inFlow : Bool) (indent : Nat) : Nat → Source → List Char → Gap →
    Option (Source × List Char × Bool)
  | 0, s, text, g => some (s, text, g.broken)
  | n + 1, s, text, g => do
    if s.isAtBorder || s.starts '#' then return (s, text, g.broken)
    let (s, text, g) ← takeWord inFlow s.left s text g
    if !(s.isAtBlank || s.isAtBreak) then return (s, text, g.broken)
    let (s, g) ← Gap.take (some indent) s.left s g
    if !inFlow && s.column < indent then return (s, text, g.broken)
    takeWords inFlow indent n s text g

/-- A plain scalar: its text, what follows, and whether it ended by a line break. -/
def take (inFlow : Bool) (indent : Nat) (s : Source) : Option (String × Source × Bool) := do
  let (s, text, broken) ← takeWords inFlow indent (s.left + 1) s [] .none
  return (String.ofList text.reverse, s, broken)

end Plain

namespace QuotedScalar

def escaped? (c : Char) : Option Char :=
  if c == '0' then some '\x00'
  else if c == 'a' then some '\x07'
  else if c == 'b' then some '\x08'
  else if c == 't' || c == '\t' then some '\t'
  else if c == 'n' then some '\n'
  else if c == 'v' then some '\x0b'
  else if c == 'f' then some '\x0c'
  else if c == 'r' then some '\r'
  else if c == 'e' then some '\x1b'
  else if c == ' ' || c == '"' || c == '/' || c == '\\' then some c
  else if c == 'N' then some '\u0085'
  else if c == '_' then some '\u00a0'
  else if c == 'L' then some '\u2028'
  else if c == 'P' then some '\u2029'
  else none

/-- How many digits of a code follow a character after a backslash. -/
def codeLength? (c : Char) : Option Nat :=
  if c == 'x' then some 2 else if c == 'u' then some 4 else if c == 'U' then some 8 else none

def coded? (length : Nat) (cs : List Char) : Option Char := do
  let digits := cs.take length
  let n ← Word.digits? 16 digits
  if digits.length < length then none
  else if (0xD800 ≤ n ∧ n ≤ 0xDFFF) ∨ 0x10FFFF < n then none
  else some (Char.ofNat n)

/-- Takes characters up to a blank, a line break or the closing quote. Gives whether it stopped at a
line break that a backslash hides. -/
def takeWord (single : Bool) : Nat → Source → List Char → Option (Source × List Char × Bool)
  | 0, s, text => some (s, text, false)
  | n + 1, s, text =>
    if endsWord s.rest then some (s, text, false)
    else match s.rest with
      | '\'' :: rest =>
        if !single then takeWord single n (s.skip 1) ('\'' :: text)
        else if rest.head? == some '\'' then takeWord single n (s.skip 2) ('\'' :: text)
        else some (s, text, false)
      | '"' :: _ =>
        if single then takeWord single n (s.skip 1) ('"' :: text) else some (s, text, false)
      | '\\' :: c :: rest =>
        if single then takeWord single n (s.skip 1) ('\\' :: text)
        else if isBreak c then some ((s.skip 1).takeBreak.2, text, true)
        else match escaped? c, codeLength? c with
          | some d, _ => takeWord single n (s.skip 2) (d :: text)
          | none, some length => do
            let d ← coded? length rest
            takeWord single n (s.skip (2 + length)) (d :: text)
          | none, none => none
      | c :: _ => if c == '\\' && !single then none else takeWord single n (s.skip 1) (c :: text)
      | [] => some (s, text, false)

def takeWords (single : Bool) : Nat → Source → List Char → Option (Source × List Char)
  | 0, _, _ => none
  | n + 1, s, text => do
    if s.isAtBorder || s.rest.isEmpty then none
    let (s, text, hidden) ← takeWord single s.left s text
    if s.starts (if single then '\'' else '"') then return (s.skip 1, text)
    let (s, g) ← Gap.take none s.left s { Gap.none with broken := hidden }
    takeWords single n s (g.fold ++ text)

/-- A quoted scalar from its opening quote: its text and what follows. -/
def take (single : Bool) (s : Source) : Option (String × Source) := do
  let (s, text) ← takeWords single (s.left + 1) (s.skip 1) []
  return (String.ofList text.reverse, s)

end QuotedScalar

namespace Block

/-- What becomes of the line breaks at the end: one is kept, none, or all. -/
inductive Chomping where
  | clip
  | strip
  | keep

structure Header where
  chomping : Chomping
  increment : Option Nat

def chomping? (c : Char) : Option Chomping :=
  if c == '+' then some .keep else if c == '-' then some .strip else none

/-- A digit other than zero, if a digit stands there. -/
def increment? : List Char → Option (Option Nat)
  | c :: _ => if c == '0' then none else if c.isDigit then some (some (c.toNat - '0'.toNat)) else some none
  | [] => some none

def header (s : Source) : Option (Header × Source) :=
  match s.head?.bind chomping? with
  | some chomping => do
    let increment ← increment? (s.skip 1).rest
    return (⟨chomping, increment⟩, s.skip (if increment.isSome then 2 else 1))
  | none => do
    match ← increment? s.rest with
    | none => return (⟨.clip, none⟩, s)
    | some i => match (s.skip 1).head?.bind chomping? with
      | some chomping => return (⟨chomping, some i⟩, s.skip 2)
      | none => return (⟨.clip, some i⟩, s.skip 1)

/-- Takes indentation and empty lines, an indentation of zero being one that is not known yet. Gives
the breaks in reverse and the widest indentation met. -/
def takeBreaks (indent : Nat) : Nat → Source → List Char → Nat → Option (Source × List Char × Nat)
  | 0, s, breaks, widest => some (s, breaks, widest)
  | n + 1, s, breaks, widest =>
    let spaces := (s.rest.takeWhile (· == ' ')).length
    let s := s.skip (if indent = 0 then spaces else min spaces (indent - s.column))
    let widest := max widest s.column
    if (indent = 0 ∨ s.column < indent) ∧ s.starts '\t' then none
    else if s.isAtBreak then
      let (b, s) := s.takeBreak
      takeBreaks indent n s (b.toList ++ breaks) widest
    else some (s, breaks, widest)

/-- The lines read so far: the text in reverse, the break after the last line, the breaks after that,
and whether the last line began with a blank. -/
structure Lines where
  text : List Char
  last : Option Char
  further : List Char
  indented : Bool

/-- The text in reverse with the breaks before the next line. -/
def Lines.join (l : Lines) (literal indented : Bool) : List Char :=
  if !literal && l.last == some '\n' && !l.indented && !indented then
    (if l.further.isEmpty then ' ' :: l.text else l.further ++ l.text)
  else l.further ++ l.last.toList ++ l.text

def takeLines (literal : Bool) (indent : Nat) : Nat → Source → Lines → Option (Source × Lines)
  | 0, s, l => some (s, l)
  | n + 1, s, l =>
    if s.column = indent ∧ !s.rest.isEmpty then do
      let indented := s.isAtBlank
      let text := l.join literal indented
      let (line, s) := s.takeWhile fun c => !isBreak c
      let (last, s) := s.takeBreak
      let (s, further, _) ← takeBreaks indent (s.left + 1) s [] 0
      takeLines literal indent n s ⟨line.reverse ++ text, last, further, indented⟩
    else some (s, l)

/-- The text in reverse with the breaks at its end that are kept. -/
def Lines.chomp (l : Lines) : Chomping → List Char
  | .strip => l.text
  | .clip => l.last.toList ++ l.text
  | .keep => l.further ++ l.last.toList ++ l.text

/-- A block scalar from its indicator, inside a collection at column `parent`. -/
def take (literal : Bool) (parent : Int) (s : Source) : Option (String × Source) := do
  let (h, s) ← header (s.skip 1)
  let s := s.skipWhile isBlankChar
  let s := if s.starts '#' then s.skipWhile fun c => !isBreak c else s
  if !endsLine s.rest then none
  let s := s.takeBreak.2
  let given := match h.increment with
    | some i => (max parent 0).toNat + i
    | none => 0
  let (s, breaks, widest) ← takeBreaks given (s.left + 1) s [] 0
  let indent := if given ≠ 0 then given else max (max widest (parent + 1).toNat) 1
  let (s, l) ← takeLines literal indent (s.left + 1) s ⟨[], none, breaks, false⟩
  return (String.ofList (l.chomp h.chomping).reverse, s)

end Block

end GridSweep.Yaml
