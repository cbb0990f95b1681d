namespace GridSweep

/-- The twenty-five code points with the property `White_Space`. -/
def isBlank (c : Char) : Bool :=
  let n := c.val.toNat
  (0x09 ≤ n && n ≤ 0x0D) || n == 0x20 || n == 0x85 || n == 0xA0 || n == 0x1680 ||
    (0x2000 ≤ n && n ≤ 0x200A) || n == 0x2028 || n == 0x2029 || n == 0x202F || n == 0x205F ||
    n == 0x3000

def trimmedChars (cs : List Char) : List Char :=
  ((cs.dropWhile isBlank).reverse.dropWhile isBlank).reverse

def trimmed (s : String) : String := String.ofList (trimmedChars s.toList)

def isBlankText (s : String) : Bool := s.toList.all isBlank

end GridSweep
