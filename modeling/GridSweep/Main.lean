import GridSweep.Command.Basic
import Std.Time

namespace GridSweep.Main

/-- Why a file cannot be read, as far as commands tell causes apart. -/
def faultOf : IO.Error → Files.Fault
  | .noFileOrDirectory .. => .notFound
  | .noSuchThing .. => .notFound
  | .alreadyExists .. => .alreadyExists
  | .inappropriateType .. => .isDirectory
  | .invalidArgument .. => .nameTooLong
  | _ => .notDirectory

def fetch (path : String) (files : Files.Tree) : IO Files.Tree := do
  match ← (IO.FS.readBinFile path).toBaseIO with
  | .ok bytes =>
    let files := (files.makeDirectories ((Path.parent? path).getD "")).2
    return (files.write path bytes).toOption.getD files
  | .error e =>
    if faultOf e = .isDirectory then return (files.makeDirectories path).2 else return files

def noLauncher : Program.Launcher := fun program _ _ =>
  .error (Program.startFault .initial program)

def restore (path : String) (before after : Files.Tree) : IO Unit := do
  match before.read path, after.read path with
  | .ok _, .error .notFound => IO.FS.removeFile path
  | _, .ok bytes =>
    let directory := (Path.parent? path).getD ""
    if !directory.isEmpty then IO.FS.createDirAll directory
    IO.FS.writeBinFile (path ++ ".new") bytes
    IO.FS.rename (path ++ ".new") path
  | _, _ => return ()

def checkpointOf (arguments : List String) (files : Files.Tree) : Option String := do
  let line ← (Command.Line.ofArguments arguments).toOption
  let config ← (Config.load files line.config).toOption
  return (Store.ofConfig config).path config

def configOf (arguments : List String) : Option String :=
  (Command.Line.ofArguments arguments).toOption.map Command.Line.config

end GridSweep.Main

open GridSweep GridSweep.Main in
def main (arguments : List String) : IO UInt32 := do
  let files ← match configOf arguments with
    | some path => fetch path .initial
    | none => pure .initial
  let checkpoint := checkpointOf arguments files
  let files ← match checkpoint with
    | some path => fetch path files
    | none => pure files
  let time := (← Std.Time.DateTime.now).toISO8601String
  let exit := Command.call ⟨noLauncher, time⟩ arguments files
  IO.print exit.output
  if let some e := exit.error then IO.eprintln ("Error: " ++ e.display)
  if let some path := checkpoint then restore path files exit.files
  return UInt32.ofNat exit.code
