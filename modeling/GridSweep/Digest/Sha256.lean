namespace GridSweep.Sha256

structure Words where
  a : UInt32
  b : UInt32
  c : UInt32
  d : UInt32
  e : UInt32
  f : UInt32
  g : UInt32
  h : UInt32
  deriving DecidableEq

def initial : Words :=
  ⟨0x6a09e667, 0xbb67ae85, 0x3c6ef372, 0xa54ff53a, 0x510e527f, 0x9b05688c, 0x1f83d9ab, 0x5be0cd19⟩

def roundConstants : List UInt32 := [
  0x428a2f98, 0x71374491, 0xb5c0fbcf, 0xe9b5dba5, 0x3956c25b, 0x59f111f1, 0x923f82a4, 0xab1c5ed5,
  0xd807aa98, 0x12835b01, 0x243185be, 0x550c7dc3, 0x72be5d74, 0x80deb1fe, 0x9bdc06a7, 0xc19bf174,
  0xe49b69c1, 0xefbe4786, 0x0fc19dc6, 0x240ca1cc, 0x2de92c6f, 0x4a7484aa, 0x5cb0a9dc, 0x76f988da,
  0x983e5152, 0xa831c66d, 0xb00327c8, 0xbf597fc7, 0xc6e00bf3, 0xd5a79147, 0x06ca6351, 0x14292967,
  0x27b70a85, 0x2e1b2138, 0x4d2c6dfc, 0x53380d13, 0x650a7354, 0x766a0abb, 0x81c2c92e, 0x92722c85,
  0xa2bfe8a1, 0xa81a664b, 0xc24b8b70, 0xc76c51a3, 0xd192e819, 0xd6990624, 0xf40e3585, 0x106aa070,
  0x19a4c116, 0x1e376c08, 0x2748774c, 0x34b0bcb5, 0x391c0cb3, 0x4ed8aa4a, 0x5b9cca4f, 0x682e6ff3,
  0x748f82ee, 0x78a5636f, 0x84c87814, 0x8cc70208, 0x90befffa, 0xa4506ceb, 0xbef9a3f7, 0xc67178f2]

def rotateRight (x : UInt32) (n : UInt32) : UInt32 := (x >>> n) ||| (x <<< (32 - n))

def bytesOfWord (w : UInt32) : List UInt8 :=
  [(w >>> 24).toUInt8, (w >>> 16).toUInt8, (w >>> 8).toUInt8, w.toUInt8]

/-- A one bit, zeros, and the length in bits, up to a multiple of sixty-four bytes. -/
def padding (length : Nat) : List UInt8 :=
  let bits := length * 8
  0x80 :: List.replicate ((119 - length % 64) % 64) 0 ++
    bytesOfWord (UInt32.ofNat (bits / 0x100000000)) ++ bytesOfWord (UInt32.ofNat bits)

def wordsOfBytes : List UInt8 → List UInt32
  | a :: b :: c :: d :: rest =>
    (a.toUInt32 <<< 24 ||| b.toUInt32 <<< 16 ||| c.toUInt32 <<< 8 ||| d.toUInt32) ::
      wordsOfBytes rest
  | _ => []

/-- One further word of the schedule, from the last sixteen. -/
def scheduleStep (w : Array UInt32) : Array UInt32 :=
  let past := fun k => w.getD (w.size - k) 0
  let s0 := rotateRight (past 15) 7 ^^^ rotateRight (past 15) 18 ^^^ (past 15 >>> 3)
  let s1 := rotateRight (past 2) 17 ^^^ rotateRight (past 2) 19 ^^^ (past 2 >>> 10)
  w.push (past 16 + s0 + past 7 + s1)

def schedule (block : List UInt32) : List UInt32 :=
  (Nat.repeat scheduleStep 48 block.toArray).toList

def round (s : Words) (kw : UInt32 × UInt32) : Words :=
  let s1 := rotateRight s.e 6 ^^^ rotateRight s.e 11 ^^^ rotateRight s.e 25
  let choice := (s.e &&& s.f) ^^^ (~~~s.e &&& s.g)
  let t1 := s.h + s1 + choice + kw.1 + kw.2
  let s0 := rotateRight s.a 2 ^^^ rotateRight s.a 13 ^^^ rotateRight s.a 22
  let majority := (s.a &&& s.b) ^^^ (s.a &&& s.c) ^^^ (s.b &&& s.c)
  ⟨t1 + (s0 + majority), s.a, s.b, s.c, s.d + t1, s.e, s.f, s.g⟩

def compress (s : Words) (block : List UInt32) : Words :=
  let t := (roundConstants.zip (schedule block)).foldl round s
  ⟨s.a + t.a, s.b + t.b, s.c + t.c, s.d + t.d, s.e + t.e, s.f + t.f, s.g + t.g, s.h + t.h⟩

/-- Compresses whole blocks of sixteen words; the first argument bounds their number. -/
def blocks : Nat → Words → List UInt32 → Words
  | 0, s, _ => s
  | n + 1, s, words =>
    if words.isEmpty then s else blocks n (compress s (words.take 16)) (words.drop 16)

def digest (bytes : List UInt8) : List UInt8 :=
  let words := wordsOfBytes (bytes ++ padding bytes.length)
  let s := blocks words.length initial words
  [s.a, s.b, s.c, s.d, s.e, s.f, s.g, s.h].flatMap bytesOfWord

def hexDigit (n : Nat) : Char := (Nat.toDigits 16 n).headD '0'

def hexByte (b : UInt8) : List Char := [hexDigit (b.toNat / 16), hexDigit (b.toNat % 16)]

def hex (s : String) : String := String.ofList ((digest s.toUTF8.toList).flatMap hexByte)

end GridSweep.Sha256
