import GridSweep.Json.Basic
import GridSweep.Number.Layout

/-!
The text of a JSON value: compact, without spaces, or pretty, one part a line and two spaces a level.
`Json.chars` says what the text is; `Json.write` appends it to a text. Main statement: `toList_write`,
that is what it appends.
-/
namespace GridSweep.Json

/-- The two-character escapes; other characters below U+0020 are written by their code. -/
def shortEscape (c : Char) : Option Char :=
  if c == '"' then some '"'
  else if c == '\\' then some '\\'
  else if c == '\x08' then some 'b'
  else if c == '\x0c' then some 'f'
  else if c == '\n' then some 'n'
  else if c == '\r' then some 'r'
  else if c == '\t' then some 't'
  else none

def hexDigit (n : Nat) : Char := (Nat.toDigits 16 n).headD '0'

def escape (c : Char) : List Char :=
  match shortEscape c with
  | some short => ['\\', short]
  | none =>
    if c.toNat < 0x20 then ['\\', 'u', '0', '0', hexDigit (c.toNat / 16), hexDigit (c.toNat % 16)]
    else [c]

def quoted (s : String) : List Char := '"' :: s.toList.flatMap escape ++ ['"']

/-- How the parts of arrays and objects are set apart: what stands before a closing bracket, what more
stands before each part, and what follows the name of a member. -/
structure Spacing where
  gap : String
  indent : String
  colon : String

namespace Spacing

def compact : Spacing := ⟨"", "", ":"⟩

def pretty : Spacing := ⟨"\n", "  ", ": "⟩

def inner (sp : Spacing) : Spacing := { sp with gap := sp.gap ++ sp.indent }

/-- Further parts between brackets, and the gap before the closing one. -/
def further (sp : Spacing) : List (List Char) → List Char
  | [] => sp.gap.toList
  | part :: rest => ',' :: sp.inner.gap.toList ++ part ++ sp.further rest

/-- The parts between brackets; nothing at all if there are none. -/
def parts (sp : Spacing) : List (List Char) → List Char
  | [] => []
  | part :: rest => sp.inner.gap.toList ++ part ++ sp.further rest

end Spacing

mutual

def chars (sp : Spacing) : Json → List Char
  | null => "null".toList
  | bool true => "true".toList
  | bool false => "false".toList
  | num n => n.text.toList
  | str s => quoted s
  | arr items => '[' :: sp.parts (itemChars sp.inner items) ++ [']']
  | obj members => '\x7b' :: sp.parts (memberChars sp.inner members) ++ ['\x7d']

def itemChars (sp : Spacing) : List Json → List (List Char)
  | [] => []
  | x :: rest => chars sp x :: itemChars sp rest

def memberChars (sp : Spacing) : List (String × Json) → List (List Char)
  | [] => []
  | (name, x) :: rest => (quoted name ++ sp.colon.toList ++ chars sp x) :: memberChars sp rest

end

def needsNoEscape (c : Char) : Bool := (shortEscape c).isNone && 0x20 ≤ c.toNat

theorem flatMap_escape {cs : List Char} (h : cs.all needsNoEscape) : cs.flatMap escape = cs := by
  induction cs with
  | nil => rfl
  | cons c rest ih =>
    rw [List.all_cons, Bool.and_eq_true, needsNoEscape, Bool.and_eq_true] at h
    obtain ⟨⟨short, low⟩, later⟩ := h
    have same : escape c = [c] := by
      rw [escape, Option.isNone_iff_eq_none.1 short]
      exact if_neg (Nat.not_lt.2 (of_decide_eq_true low))
    rw [List.flatMap_cons, ih later, same]
    rfl

def writeEscaped (out : String) (cs : List Char) : String :=
  cs.foldl (fun out c => (escape c).foldl String.push out) out

def writeText (out s : String) : String :=
  let cs := s.toList
  if cs.all needsNoEscape then (out.push '"' ++ s).push '"'
  else (writeEscaped (out.push '"') cs).push '"'

theorem toList_foldl_push (cs : List Char) (out : String) :
    (cs.foldl String.push out).toList = out.toList ++ cs := by
  induction cs generalizing out with
  | nil => simp
  | cons c rest ih => simp [ih]

theorem toList_writeEscaped (out : String) (cs : List Char) :
    (writeEscaped out cs).toList = out.toList ++ cs.flatMap escape := by
  rw [writeEscaped]
  induction cs generalizing out with
  | nil => simp
  | cons c rest ih =>
    rw [List.foldl_cons, ih, toList_foldl_push, List.flatMap_cons, List.append_assoc]

theorem toList_writeText (out s : String) : (writeText out s).toList = out.toList ++ quoted s := by
  rw [writeText, quoted]
  split
  · next h => simp [flatMap_escape h]
  · simp [toList_writeEscaped]

mutual

def write (sp : Spacing) (out : String) : Json → String
  | null => out ++ "null"
  | bool true => out ++ "true"
  | bool false => out ++ "false"
  | num n => out ++ n.text
  | str s => writeText out s
  | arr items => (writeItems sp sp.inner true (out.push '[') items).push ']'
  | obj members => (writeMembers sp sp.inner true (out.push '\x7b') members).push '\x7d'

/-- Appends items, being told the spacing inside and whether the next item is the first. -/
def writeItems (sp inner : Spacing) (first : Bool) (out : String) : List Json → String
  | [] => if first then out else out ++ sp.gap
  | x :: rest =>
    let out := if first then out else out.push ','
    writeItems sp inner false (write inner (out ++ inner.gap) x) rest

def writeMembers (sp inner : Spacing) (first : Bool) (out : String) :
    List (String × Json) → String
  | [] => if first then out else out ++ sp.gap
  | (name, x) :: rest =>
    let out := if first then out else out.push ','
    let out := writeText (out ++ inner.gap) name ++ inner.colon
    writeMembers sp inner false (write inner out x) rest

end

mutual

theorem toList_write (sp : Spacing) (out : String) (j : Json) :
    (write sp out j).toList = out.toList ++ chars sp j := by
  match j with
  | null => simp [write, chars]
  | bool true => simp [write, chars]
  | bool false => simp [write, chars]
  | num n => simp [write, chars]
  | str s => rw [write, chars, toList_writeText]
  | arr items => simp [write, chars, toList_writeItems sp true (out.push '[') items]
  | obj members => simp [write, chars, toList_writeMembers sp true (out.push '\x7b') members]

theorem toList_writeItems (sp : Spacing) (first : Bool) (out : String) (items : List Json) :
    (writeItems sp sp.inner first out items).toList =
      out.toList ++ (if first then sp.parts else sp.further) (itemChars sp.inner items) := by
  match items with
  | [] => cases first <;> simp [writeItems, itemChars, Spacing.parts, Spacing.further]
  | x :: rest =>
    rw [writeItems, toList_writeItems sp false, toList_write sp.inner _ x, itemChars]
    cases first <;> simp [Spacing.parts, Spacing.further]

theorem toList_writeMembers (sp : Spacing) (first : Bool) (out : String)
    (members : List (String × Json)) :
    (writeMembers sp sp.inner first out members).toList =
      out.toList ++ (if first then sp.parts else sp.further) (memberChars sp.inner members) := by
  match members with
  | [] => cases first <;> simp [writeMembers, memberChars, Spacing.parts, Spacing.further]
  | (name, x) :: rest =>
    rw [writeMembers, toList_writeMembers sp false, toList_write sp.inner _ x, memberChars]
    cases first <;> simp [Spacing.parts, Spacing.further, toList_writeText]

end

def compact (j : Json) : String := j.write .compact ""

def pretty (j : Json) : String := j.write .pretty ""

theorem toList_compact (j : Json) : j.compact.toList = j.chars .compact := by
  simp [compact, toList_write]

theorem toList_pretty (j : Json) : j.pretty.toList = j.chars .pretty := by
  simp [pretty, toList_write]

/-- The compact text of the normal form: equal for values that differ in the order of members only. -/
def canonical (j : Json) : String := j.normal.compact

end GridSweep.Json
