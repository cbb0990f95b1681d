namespace GridSweep.Path

/-- The parts between the slashes of a text, one more than there are slashes. -/
def splitChars : List Char → List (List Char)
  | [] => [[]]
  | c :: rest =>
    if c = '/' then [] :: splitChars rest
    else match splitChars rest with
      | part :: parts => (c :: part) :: parts
      | [] => [[c]]

def parts (path : String) : List String := (splitChars path.toList).map String.ofList

def isAbsolute (path : String) : Bool := path.toList.head? == some '/'

/-- The second path as seen from the first: itself if absolute, else appended after a slash. -/
def join (base path : String) : String :=
  if isAbsolute path || base.isEmpty then path
  else if base.toList.getLast? == some '/' then base ++ path
  else base ++ "/" ++ path

/-- Whether a part after the first names nothing. -/
def isIdle (part : String) : Bool := part == "" || part == "."

/-- Parts in reverse without the idle ones at the end of the path. -/
def strip (reversed : List String) : List String := reversed.dropWhile isIdle

/-- Parts in reverse after the last of them that names something was taken away. -/
def dropLast? (reversed : List String) : Option (List String) :=
  match strip reversed with
  | [] => none
  | _ :: rest => some (strip rest)

/-- The path without its last component; none for the root and the empty path. -/
def parent? (path : String) : Option String :=
  match parts path with
  | [] => none
  | first :: rest =>
    if isAbsolute path then
      (dropLast? rest.reverse).map fun r => "/" ++ String.intercalate "/" r.reverse
    else match dropLast? rest.reverse with
      | some r => some (String.intercalate "/" (first :: r.reverse))
      | none => if first.isEmpty then none else some ""

/-- The path, its parent, and so on, at most `n` of them. -/
def ancestorsUpTo : Nat → String → List String
  | 0, _ => []
  | n + 1, path => path :: match parent? path with
    | none => []
    | some parent => ancestorsUpTo n parent

def ancestors (path : String) : List String := ancestorsUpTo (path.length + 1) path

/-- The parts that name something on the way, `.` and `..` included. -/
def components (path : String) : List String := (parts path).filter (· != "")

def wantsDirectory (path : String) : Bool := path.toList.getLast? == some '/'

end GridSweep.Path
