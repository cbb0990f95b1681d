namespace GridSweep.Utf8

/-- A character begun: its bits so far, how many bytes it still needs, and what the next may be. -/
structure Begun where
  value : Nat
  owed : Nat
  low : Nat
  high : Nat

inductive Lead where
  | whole (c : Char)
  | begun (b : Begun)
  | faulty

/-- What a byte starts. The bounds on the second byte exclude overlong forms, surrogates and values
above U+10FFFF. -/
def lead (byte : Nat) : Lead :=
  if byte < 0x80 then .whole (Char.ofNat byte)
  else if 0xC2 ≤ byte ∧ byte ≤ 0xDF then .begun ⟨byte - 0xC0, 1, 0x80, 0xBF⟩
  else if 0xE0 ≤ byte ∧ byte ≤ 0xEF then
    .begun ⟨byte - 0xE0, 2, if byte = 0xE0 then 0xA0 else 0x80, if byte = 0xED then 0x9F else 0xBF⟩
  else if 0xF0 ≤ byte ∧ byte ≤ 0xF4 then
    .begun ⟨byte - 0xF0, 3, if byte = 0xF0 then 0x90 else 0x80, if byte = 0xF4 then 0x8F else 0xBF⟩
  else .faulty

/-- The character or fault that a byte completes from between characters, and what it begins. -/
def first (byte : UInt8) : List (Option Char) × Option Begun :=
  match lead byte.toNat with
  | .whole c => ([some c], none)
  | .begun b => ([], some b)
  | .faulty => ([none], none)

/-- One byte: the characters and faults it completes, and the character left begun. -/
def step (byte : UInt8) : Option Begun → List (Option Char) × Option Begun
  | none => first byte
  | some s =>
    if s.low ≤ byte.toNat ∧ byte.toNat ≤ s.high then
      let value := s.value * 64 + (byte.toNat - 0x80)
      if s.owed = 1 then ([some (Char.ofNat value)], none)
      else ([], some ⟨value, s.owed - 1, 0x80, 0xBF⟩)
    else (none :: (first byte).1, (first byte).2)

/-- The characters of a byte sequence, none for each faulty stretch. -/
def chars : Option Begun → List UInt8 → List (Option Char)
  | none, [] => []
  | some _, [] => [none]
  | state, byte :: rest => (step byte state).1 ++ chars (step byte state).2 rest

def lenient (bytes : ByteArray) : String :=
  String.ofList ((chars none bytes.toList).map (·.getD '\ufffd'))

end GridSweep.Utf8
