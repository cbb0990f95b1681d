namespace GridSweep.Yaml

def isBreak (c : Char) : Bool :=
  c == '\n' || c == '\r' || c == '\u0085' || c == '\u2028' || c == '\u2029'

def isBlankChar (c : Char) : Bool := c == ' ' || c == '\t'

def isNameChar (c : Char) : Bool := c.isAlphanum || c == '_' || c == '-'

def endsWord : List Char → Bool
  | [] => true
  | c :: _ => isBlankChar c || isBreak c

def endsLine : List Char → Bool
  | [] => true
  | c :: _ => isBreak c

/-- Whether a text begins with three characters that mark the border of a document. -/
def isBorder : List Char → Bool
  | '-' :: '-' :: '-' :: rest => endsWord rest
  | '.' :: '.' :: '.' :: rest => endsWord rest
  | _ => false

/-- Characters that may stand in a document at all. -/
def isPrintable (c : Char) : Bool :=
  let n := c.toNat
  n == 0x09 || n == 0x0A || n == 0x0D || (0x20 ≤ n && n ≤ 0x7E) || n == 0x85 ||
    (0xA0 ≤ n && n ≤ 0xFFFD) || 0x10000 ≤ n

def octetCount (cs : List Char) : Nat := cs.foldl (fun n c => n + c.utf8Size) 0

/-- The rest of a text, its length, and the place where it begins: octets from the start of the text,
and lines and characters of the line, counted from zero. -/
structure Source where
  rest : List Char
  left : Nat
  left_eq : left = rest.length
  index : Nat
  line : Nat
  column : Nat

namespace Source

def ofChars (cs : List Char) : Source := ⟨cs, cs.length, rfl, 0, 0, 0⟩

def head? (s : Source) : Option Char := s.rest.head?

def starts (s : Source) (c : Char) : Bool := s.rest.head? == some c

def skip (s : Source) (n : Nat) : Source :=
  ⟨s.rest.drop n, s.left - n, by rw [s.left_eq, List.length_drop],
    s.index + octetCount (s.rest.take n), s.line, s.column + n⟩

def takeWhile (s : Source) (p : Char → Bool) : List Char × Source :=
  let found := s.rest.takeWhile p
  (found, s.skip found.length)

def skipWhile (s : Source) (p : Char → Bool) : Source := (s.takeWhile p).2

def nextLine (s : Source) (n : Nat) : Source :=
  ⟨s.rest.drop n, s.left - n, by rw [s.left_eq, List.length_drop],
    s.index + octetCount (s.rest.take n), s.line + 1, 0⟩

/-- Passes over a line break, if there is one, and gives the character it stands for: a line feed,
but the two separators of Unicode stand for themselves. -/
def takeBreak (s : Source) : Option Char × Source :=
  match s.rest with
  | '\r' :: '\n' :: _ => (some '\n', s.nextLine 2)
  | c :: _ =>
    if c == '\u2028' || c == '\u2029' then (some c, s.nextLine 1)
    else if isBreak c then (some '\n', s.nextLine 1)
    else (none, s)
  | [] => (none, s)

/-- Passes over a byte order mark at the start of a line; it takes up the first column. -/
def skipMark (s : Source) : Source := if s.column == 0 && s.starts '\ufeff' then s.skip 1 else s

def isAtBreak (s : Source) : Bool := s.rest.head?.any isBreak

def isAtBlank (s : Source) : Bool := s.rest.head?.any isBlankChar

def isAtBorder (s : Source) : Bool := s.column == 0 && isBorder s.rest

end Source

end GridSweep.Yaml
