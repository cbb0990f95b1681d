import GridSweep.Files.Path

/-!
A tree of files and directories, and the operations on it that a store needs. An operation that
fails gives the cause that a POSIX system gives, and leaves what it did before in place.
-/
namespace GridSweep.Files

inductive Fault where
  | notFound
  | alreadyExists
  | notDirectory
  | isDirectory
  | nameTooLong
  | denied
  | containsNul
  deriving DecidableEq

def Fault.message : Fault → String
  | notFound => "No such file or directory (os error 2)"
  | alreadyExists => "File exists (os error 17)"
  | notDirectory => "Not a directory (os error 20)"
  | isDirectory => "Is a directory (os error 21)"
  | nameTooLong => "File name too long (os error 36)"
  | denied => "Permission denied (os error 13)"
  | containsNul => "file name contained an unexpected NUL byte"

inductive Entry where
  | file (bytes : ByteArray)
  | directory

abbrev Location := List String

/-- Everything but the root, and the directory that relative paths start from. -/
structure Tree where
  entries : List (Location × Entry)
  home : Location

namespace Tree

def initial : Tree := ⟨[(["home"], .directory)], ["home"]⟩

instance : Inhabited Tree := ⟨initial⟩

def find? (t : Tree) (l : Location) : Option Entry :=
  if l.isEmpty then some .directory else (t.entries.find? (·.1 == l)).map Prod.snd

def erase (t : Tree) (l : Location) : Tree := { t with entries := t.entries.filter (·.1 != l) }

def place (t : Tree) (l : Location) (e : Entry) : Tree :=
  { t with entries := (l, e) :: (t.erase l).entries }

/-- The longest name and the longest path, in bytes. -/
def nameLimit : Nat := 255
def pathLimit : Nat := 4095

/-- The location a name leads to from a directory, whether or not something is there. -/
def follow (l : Location) (name : String) : Except Fault Location :=
  if name == "." then .ok l
  else if name == ".." then .ok l.dropLast
  else if nameLimit < name.utf8ByteSize then .error .nameTooLong
  else .ok (l ++ [name])

def enter (t : Tree) : Location → List String → Except Fault Location
  | l, [] => .ok l
  | l, name :: rest => do
    let next ← follow l name
    match t.find? next with
    | none => .error .notFound
    | some (.file _) => .error .notDirectory
    | some .directory => enter t next rest

/-- Where a path leads once the directories on its way are known to exist, and whether its last part
is a name of its own. -/
def resolve (t : Tree) (path : String) : Except Fault (Location × Bool) :=
  if path.toList.contains '\x00' then .error .containsNul
  else if path.isEmpty then .error .notFound
  else if pathLimit < path.utf8ByteSize then .error .nameTooLong
  else
    let start := if Path.isAbsolute path then [] else t.home
    let names := Path.components path
    match names.getLast? with
    | none => .ok (start, false)
    | some last => do
      let directory ← t.enter start names.dropLast
      let l ← follow directory last
      return (l, last != "." && last != "..")

def entry (t : Tree) (path : String) : Except Fault Entry := do
  let (l, _) ← t.resolve path
  match t.find? l with
  | none => .error .notFound
  | some .directory => return .directory
  | some (.file b) => if Path.wantsDirectory path then .error .notDirectory else return .file b

def isFile (t : Tree) (path : String) : Bool :=
  match t.entry path with
  | .ok (.file _) => true
  | _ => false

def isDirectory (t : Tree) (path : String) : Bool :=
  match t.entry path with
  | .ok .directory => true
  | _ => false

def read (t : Tree) (path : String) : Except Fault ByteArray := do
  match ← t.entry path with
  | .file b => return b
  | .directory => .error .isDirectory

/-- Puts a file at a path whose directory exists, in place of a file that is there. -/
def write (t : Tree) (path : String) (bytes : ByteArray) : Except Fault Tree := do
  let (l, _) ← t.resolve path
  match t.find? l with
  | some .directory => .error .isDirectory
  | some (.file _) =>
    if Path.wantsDirectory path then .error .notDirectory else return t.place l (.file bytes)
  | none => if Path.wantsDirectory path then .error .isDirectory else return t.place l (.file bytes)

def remove (t : Tree) (path : String) : Except Fault Tree := do
  match ← t.entry path with
  | .directory => .error .isDirectory
  | .file _ => do
    let (l, _) ← t.resolve path
    return t.erase l

def makeDirectory (t : Tree) (path : String) : Except Fault Tree := do
  let (l, proper) ← t.resolve path
  if !proper || (t.find? l).isSome then .error .alreadyExists else return t.place l .directory

/-- Makes the first of a chain of ancestors after making the others as far as they are missing. The
tree keeps what was made before a failure. -/
def makeChain : List String → Tree → Except Fault Unit × Tree
  | [], t => (.error .notFound, t)
  | path :: ancestors, t =>
    if path.isEmpty then (.ok (), t)
    else match t.makeDirectory path with
      | .ok t => (.ok (), t)
      | .error .notFound =>
        match makeChain ancestors t with
        | (.error e, t) => (.error e, t)
        | (.ok (), t) => match t.makeDirectory path with
          | .ok t => (.ok (), t)
          | .error e => if t.isDirectory path then (.ok (), t) else (.error e, t)
      | .error e => if t.isDirectory path then (.ok (), t) else (.error e, t)

def makeDirectories (t : Tree) (path : String) : Except Fault Unit × Tree :=
  makeChain (Path.ancestors path) t

def list (t : Tree) (path : String) : Except Fault (List String) := do
  let (l, _) ← t.resolve path
  match ← t.entry path with
  | .file _ => .error .notDirectory
  | .directory =>
    let names := t.entries.filterMap fun e =>
      if e.1.dropLast == l then e.1.getLast? else none
    return names.mergeSort fun a b => !(decide (b < a))

end Tree

end GridSweep.Files
