import GridSweep.Digest.Sha256
import GridSweep.Text.Blank

/-!
File-name safe slugs. A name that already is one is kept; any other gets a digest of the raw name, so
that names differing only in case or punctuation stay apart.
-/
namespace GridSweep.Slug

/-- Lower-case ASCII letters, digits, `-` and `.` stay, capitals are lowered, all else is `_`. -/
def mapChar (c : Char) : Char :=
  if c.isLower || c.isDigit || c == '-' || c == '.' then c
  else if c.isUpper then c.toLower
  else '_'

def fallback : String := "sweep"

/-- The mapped name, or the fallback when nothing but dots is left. -/
def stem (name : String) : String :=
  let mapped := (trimmedChars name.toList).map mapChar
  if mapped.all (· == '.') then fallback else String.ofList mapped

/-- The first twelve digits of the name's digest. -/
def suffix (name : String) : String := String.ofList ((Sha256.hex name).toList.take 12)

def ofName (name : String) : String :=
  if stem name = name then name else stem name ++ "-" ++ suffix name

end GridSweep.Slug
