import GridSweep.Yaml.Scalar

/-!
The tokens of a YAML text. Indentation becomes tokens that open and close blocks. That a scalar or
collection was the key of a member shows only at the colon after it, so the places where a key may
have begun are kept, and its token is put in there.
-/
namespace GridSweep.Yaml

inductive Token where
  | version (major minor : Nat)
  | tagPrefix (handle : String) (expansion : List UInt8)
  | documentStart
  | documentEnd
  | blockSequence
  | blockMapping
  | blockEnd
  | flowSequence
  | flowSequenceEnd
  | flowMapping
  | flowMappingEnd
  | entry
  | comma
  | key
  | value
  | anchor (name : String)
  | reference (name : String)
  | tag (handle : String) (suffix : List UInt8)
  | scalar (text : String) (style : Style)
  deriving DecidableEq

/-- A place where a key may have begun: how many tokens come before it, and where it stands. In a
block at its own indentation there has to be one. -/
structure KeyPlace where
  required : Bool
  count : Nat
  index : Nat
  line : Nat
  column : Nat

/-- The state of the reader. The blocks have one place for a key, and so has each open flow collection,
the innermost first. -/
structure Lexer where
  source : Source
  tokens : Array Token
  block : Option KeyPlace
  flow : List (Option KeyPlace)
  indent : Int
  outer : List Int
  keyAllowed : Bool

namespace Lexer

def start (s : Source) : Lexer := ⟨s, #[], none, [], -1, [], true⟩

def inFlow (l : Lexer) : Bool := !l.flow.isEmpty

def place (l : Lexer) : Option KeyPlace :=
  match l.flow with
  | p :: _ => p
  | [] => l.block

def setPlace (l : Lexer) (p : Option KeyPlace) : Lexer :=
  match l.flow with
  | _ :: rest => { l with flow := p :: rest }
  | [] => { l with block := p }

def push (l : Lexer) (t : Token) : Lexer := { l with tokens := l.tokens.push t }

def allow (l : Lexer) (keyAllowed : Bool) : Lexer := { l with keyAllowed }

def pushSkip (l : Lexer) (t : Token) (n : Nat) : Lexer :=
  { l.push t with source := l.source.skip n }

/-- Forgets the place of a key; none if a key was required there. -/
def dropPlace (l : Lexer) : Option Lexer :=
  if l.place.any KeyPlace.required then none else some (l.setPlace none)

def notePlace (l : Lexer) : Option Lexer :=
  if l.keyAllowed then do
    let l ← l.dropPlace
    let required := !l.inFlow && l.indent == (l.source.column : Int)
    return l.setPlace (some
      ⟨required, l.tokens.size, l.source.index, l.source.line, l.source.column⟩)
  else some l

/-- A key lies on one line and has at most 1024 octets. -/
def isStale (s : Source) (p : KeyPlace) : Bool :=
  p.line < s.line || p.index + 1024 < s.index

/-- Forgets the places that the reader has left behind; none if a key was required at one. Further
flow collections around the innermost one require no key, and have their turn when they are it. -/
def dropStale (l : Lexer) : Option Lexer :=
  let l := if l.inFlow && l.place.any (isStale l.source) then l.setPlace none else l
  if l.block.any (isStale l.source) then
    if l.block.any KeyPlace.required then none else some { l with block := none }
  else some l

/-- Opens a block at a column deeper than the open ones, with its token after `count` others. -/
def openBlock (l : Lexer) (column : Nat) (count : Nat) (t : Token) : Lexer :=
  if !l.inFlow && l.indent < (column : Int) then
    { l with
      indent := column
      outer := l.indent :: l.outer
      tokens := l.tokens.insertIdxIfInBounds count t }
  else l

def closeBlocks (column : Int) : List Int → Lexer → Lexer
  | [], l => l
  | outer :: rest, l =>
    if column < l.indent then
      closeBlocks column rest { l.push .blockEnd with indent := outer, outer := rest }
    else l

def unroll (l : Lexer) (column : Int) : Lexer :=
  if l.inFlow then l else closeBlocks column l.outer l

/-- Ends everything that is open before a border of the document; none if a key is missing. -/
def closeAll (l : Lexer) : Option Lexer := do
  return (← (l.unroll (-1)).dropPlace).allow false

/-- Passes over blanks, comments, line breaks and byte order marks at the start of a line. A line break
in a block allows a key after it, and then tabs are no blanks. -/
def toNextToken : Nat → Lexer → Lexer
  | 0, l => l
  | n + 1, l =>
    let tabs := l.inFlow || !l.keyAllowed
    let s := l.source.skipMark.skipWhile fun c => c == ' ' || (tabs && c == '\t')
    let s := if s.starts '#' then s.skipWhile fun c => !isBreak c else s
    if s.isAtBreak then
      toNextToken n { l with
        source := s.takeBreak.2
        keyAllowed := l.keyAllowed || !l.inFlow }
    else { l with source := s }

/-- A name after an indicator. It ends at a blank or an indicator that cannot follow it. -/
def name? (s : Source) : Option (String × Source) :=
  let (name, s) := s.takeWhile isNameChar
  let ended := endsWord s.rest || s.rest.head?.any "?:,]\x7d%@`".toList.contains
  if name.isEmpty || !ended then none else some (String.ofList name, s)

/-- Characters of a tag; some only between angle brackets or in a directive. -/
def isTagChar (verbatim : Bool) (c : Char) : Bool :=
  isNameChar c || ";/?:@&=+$.%!~*'()".toList.contains c || (verbatim && ",[]".toList.contains c)

/-- How many octets a character has whose first octet is this. -/
def octetWidth? (n : Nat) : Option Nat :=
  if n < 0x80 then some 1
  else if n < 0xC0 then none
  else if n < 0xE0 then some 2
  else if n < 0xF0 then some 3
  else if n < 0xF8 then some 4
  else none

/-- The octets that characters of a tag stand for, where `owed` more belong to an escaped character.
Escapes have to follow each other as the first octet says, but need not be UTF-8. -/
def octets? : Nat → List Char → Option (List UInt8)
  | owed, [] => if owed = 0 then some [] else none
  | owed, '%' :: a :: b :: rest => do
    let n ← Word.digits? 16 [a, b]
    let owed ←
      if owed = 0 then (octetWidth? n).map (· - 1)
      else if 0x80 ≤ n ∧ n < 0xC0 then some (owed - 1)
      else none
    return UInt8.ofNat n :: (← octets? owed rest)
  | owed, c :: rest =>
    if owed ≠ 0 || c == '%' then none
    else do return c.toUInt8 :: (← octets? 0 rest)

/-- The octets of a tag, which an escaped zero ends. -/
def tagOctets? (cs : List Char) : Option (List UInt8) :=
  (octets? 0 cs).map (·.takeWhile (· != 0))

def takeHandle (s : Source) : List Char × Source :=
  let (name, after) := (s.skip 1).takeWhile isNameChar
  if after.starts '!' then ('!' :: name ++ ['!'], after.skip 1) else ('!' :: name, after)

def tag? (inFlow : Bool) (s : Source) : Option (Token × Source) := do
  let (t, s) ← if (s.skip 1).starts '<' then do
      let (uri, s) := (s.skip 2).takeWhile (isTagChar true)
      if uri.isEmpty || !s.starts '>' then none
      pure (Token.tag "" (← tagOctets? uri), s.skip 1)
    else do
      let (handle, s) := takeHandle s
      let (uri, s) := s.takeWhile (isTagChar false)
      if 1 < handle.length && handle.getLast? == some '!' then do
        if uri.isEmpty then none
        pure (Token.tag (String.ofList handle) (← tagOctets? uri), s)
      else do
        let suffix ← tagOctets? (handle.drop 1 ++ uri)
        if suffix.isEmpty then pure (Token.tag "" ['!'.toUInt8], s)
        else pure (Token.tag "!" suffix, s)
  if endsWord s.rest || (inFlow && s.starts ',') then some (t, s) else none

def number? (s : Source) : Option (Nat × Source) :=
  let (digits, s) := s.takeWhile Char.isDigit
  if digits.isEmpty || 9 < digits.length then none
  else (Word.digits? 10 digits).map fun n => (n, s)

/-- A directive from its percent sign to the end of its line. -/
def directive? (s : Source) : Option (Token × Source) := do
  let (name, s) := (s.skip 1).takeWhile isNameChar
  if !endsWord s.rest then none
  let (t, s) ←
    if name == "YAML".toList then do
      let (major, s) ← number? (s.skipWhile isBlankChar)
      if !s.starts '.' then none
      let (minor, s) ← number? (s.skip 1)
      pure (Token.version major minor, s)
    else if name == "TAG".toList then do
      let s := s.skipWhile isBlankChar
      if !s.starts '!' then none
      let (handle, s) := takeHandle s
      if handle != ['!'] && handle.getLast? != some '!' then none
      if !s.isAtBlank then none
      let (uri, s) := (s.skipWhile isBlankChar).takeWhile (isTagChar true)
      if uri.isEmpty || !endsWord s.rest then none
      pure (Token.tagPrefix (String.ofList handle) (← tagOctets? uri), s)
    else none
  let s := s.skipWhile isBlankChar
  let s := if s.starts '#' then s.skipWhile fun c => !isBreak c else s
  if endsLine s.rest then some (t, s.takeBreak.2) else none

def blockEntry (l : Lexer) : Option Lexer := do
  if !l.inFlow && !l.keyAllowed then none
  let l ← (l.openBlock l.source.column l.tokens.size .blockSequence).dropPlace
  return (l.allow true).pushSkip .entry 1

def explicitKey (l : Lexer) : Option Lexer := do
  if !l.inFlow && !l.keyAllowed then none
  let l ← (l.openBlock l.source.column l.tokens.size .blockMapping).dropPlace
  return (l.allow !l.inFlow).pushSkip .key 1

/-- The colon after a key: the key began at the place noted last, or is empty. -/
def memberValue (l : Lexer) : Option Lexer :=
  match l.place with
  | some p =>
    let l := l.setPlace none
    let l := { l with tokens := l.tokens.insertIdxIfInBounds p.count .key }
    some (((l.openBlock p.column p.count .blockMapping).allow false).pushSkip .value 1)
  | none =>
    if !l.inFlow && !l.keyAllowed then none
    else some (((l.openBlock l.source.column l.tokens.size .blockMapping).allow
      !l.inFlow).pushSkip .value 1)

def openFlow (l : Lexer) (t : Token) : Option Lexer := do
  let l ← l.notePlace
  return ({ l with flow := none :: l.flow }.allow true).pushSkip t 1

def closeFlow (l : Lexer) (t : Token) : Option Lexer := do
  let l ← l.dropPlace
  return ({ l with flow := l.flow.tail }.allow false).pushSkip t 1

def keyToken (l : Lexer) (read : Source → Option (Token × Source)) : Option Lexer := do
  let l ← l.notePlace
  let (t, source) ← read l.source
  return { (l.allow false).push t with source }

def plain (l : Lexer) : Option Lexer := do
  let l ← l.notePlace
  let (text, source, broken) ← Plain.take l.inFlow (l.indent + 1).toNat l.source
  return { (l.allow broken).push (.scalar text .plain) with source }

def quoted (l : Lexer) (single : Bool) : Option Lexer :=
  l.keyToken fun s => (QuotedScalar.take single s).map fun (text, s) => (.scalar text .quoted, s)

def blockScalar (l : Lexer) (literal : Bool) : Option Lexer := do
  let l ← l.dropPlace
  let (text, source) ← Block.take literal l.indent l.source
  return { (l.allow true).push (.scalar text (if literal then .literal else .quoted)) with source }

def beginsPlain (l : Lexer) : List Char → Bool
  | [] => false
  | c :: rest =>
    if c == '-' then !(rest.head?.any isBlankChar)
    else if c == '?' || c == ':' then !l.inFlow && !endsWord rest
    else !isBlankChar c && !(",[]\x7b\x7d#&*!|>'\"%@`".toList.contains c)

def token (l : Lexer) (c : Char) (rest : List Char) : Option Lexer :=
  if c == '[' then l.openFlow .flowSequence
  else if c == '\x7b' then l.openFlow .flowMapping
  else if c == ']' then l.closeFlow .flowSequenceEnd
  else if c == '\x7d' then l.closeFlow .flowMappingEnd
  else if c == ',' then do return ((← l.dropPlace).allow true).pushSkip .comma 1
  else if c == '-' && endsWord rest then l.blockEntry
  else if c == '?' && (l.inFlow || endsWord rest) then l.explicitKey
  else if c == ':' && (l.inFlow || endsWord rest) then l.memberValue
  else if c == '*' then l.keyToken fun s => (name? (s.skip 1)).map fun (n, s) => (.reference n, s)
  else if c == '&' then l.keyToken fun s => (name? (s.skip 1)).map fun (n, s) => (.anchor n, s)
  else if c == '!' then l.keyToken (tag? l.inFlow)
  else if c == '|' && !l.inFlow then l.blockScalar true
  else if c == '>' && !l.inFlow then l.blockScalar false
  else if c == '\'' then l.quoted true
  else if c == '"' then l.quoted false
  else if l.beginsPlain (c :: rest) then l.plain
  else none

/-- Passes over what stands before a token, and forgets the places left behind. -/
def approach (l : Lexer) : Option Lexer := (toNextToken (l.source.left + 1) l).dropStale

/-- Reads the token that begins with a character, with the tokens that indentation adds. -/
def next (l : Lexer) (c : Char) (rest : List Char) : Option Lexer :=
  let l := l.unroll l.source.column
  if l.source.column == 0 && c == '%' then do
    let l ← l.closeAll
    let (t, source) ← directive? l.source
    return { l.push t with source }
  else if l.source.isAtBorder then do
    let l ← l.closeAll
    return l.pushSkip (if c == '-' then .documentStart else .documentEnd) 3
  else l.token c rest

/-- Reads to the end; the first argument bounds the number of tokens. -/
def run : Nat → Lexer → Option (List Token)
  | 0, _ => none
  | n + 1, l => do
    let l ← l.approach
    match l.source.rest with
    | [] => return (← l.closeAll).tokens.toList
    | c :: rest => run n (← l.next c rest)

end Lexer

def Token.ofText? (cs : List Char) : Option (List Token) :=
  if cs.all isPrintable then Lexer.run (cs.length + 1) (.start (.ofChars cs)) else none

end GridSweep.Yaml
