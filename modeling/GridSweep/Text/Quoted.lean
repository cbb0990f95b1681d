import GridSweep.Text.Unseen

namespace GridSweep.Quoted

def hexadecimal (n : Nat) : String := String.ofList (Nat.toDigits 16 n)

def escape (c : Char) : String :=
  if c == '"' then "\\\""
  else if c == '\\' then "\\\\"
  else if c == '\n' then "\\n"
  else if c == '\r' then "\\r"
  else if c == '\t' then "\\t"
  else if c == '\x00' then "\\0"
  else if isSeen c then c.toString
  else "\\u\x7b" ++ hexadecimal c.toNat ++ "\x7d"

def ofText (s : String) : String := "\"" ++ String.join (s.toList.map escape) ++ "\""

end GridSweep.Quoted
