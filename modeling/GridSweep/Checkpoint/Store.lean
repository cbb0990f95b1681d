import GridSweep.Checkpoint.Payload
import GridSweep.Config.Basic
import GridSweep.Files.Tree

/-!
The store of checkpoints: one file for each configuration, in one directory. Saving replaces the file
as a whole; loading takes a file only if it is of the known layout and of the same configuration.
-/
namespace GridSweep

namespace Checkpoint

inductive Stage where
  | makeDirectory
  | replace
  | read
  | remove

def Stage.code : Stage → String
  | makeDirectory => "checkpoint-mkdir"
  | replace => "checkpoint-persist"
  | read => "checkpoint-read"
  | remove => "checkpoint-remove"

inductive Fault where
  | files (stage : Stage) (path : String) (cause : Files.Fault)
  /-- The file is not JSON. -/
  | unparsable (path : String)
  | versionMissing (path : String)
  | undecodable (path : String) (cause : Decode.Failure)
  | versionUnknown (path : String) (found : Nat)
  | foreign (path stored expected : String)

namespace Fault

def corrupt (code message path : String) : CheckpointError :=
  ⟨.corrupt, (Diagnostic.of code message [("path", path)]).withHint
    "delete the checkpoint (clean) and rerun the sweep"⟩

def report : Fault → CheckpointError
  | files stage path cause => ⟨.ioFailure, .of stage.code cause.message [("path", path)]⟩
  | unparsable path => corrupt "checkpoint-parse" Decode.Failure.malformed.message path
  | versionMissing path => corrupt "checkpoint-schema-missing" "schema_version is missing" path
  | undecodable path cause => corrupt "checkpoint-decode" cause.message path
  | versionUnknown path found =>
    ⟨.schemaMismatch, .of "checkpoint-schema" "unsupported checkpoint schema version"
      [("path", path), ("found", toString found),
        ("expected", toString Payload.currentVersion)]⟩
  | foreign path stored expected =>
    ⟨.configMismatch, (Diagnostic.of "checkpoint-fingerprint"
      "checkpoint was written for a different search domain"
      [("path", path), ("stored", stored), ("expected", expected)]).withHint
      "restore the original configuration or discard the checkpoint"⟩

end Fault

inductive State where
  | noCheckpoint
  | restored (results : ResultSet)

namespace State

def isRestored : State → Bool
  | noCheckpoint => false
  | restored _ => true

def results : State → ResultSet
  | noCheckpoint => .empty
  | restored results => results

end State

/-- The version that a checkpoint names: a whole number that is not negative. -/
def version? (raw : Json) : Option Nat :=
  match raw.member? "schema_version" with
  | some (.num (.int i)) => if 0 ≤ i then some i.toNat else none
  | _ => none

/-- The results in the content of a checkpoint file. -/
def accept (path fingerprint : String) (bytes : ByteArray) : Except Fault ResultSet :=
  match Json.parseBytes? bytes with
  | none => .error (.unparsable path)
  | some raw => match version? raw with
    | none => .error (.versionMissing path)
    | some version =>
      if version ≠ Payload.currentVersion then .error (.versionUnknown path version)
      else match Json.decodeValue Payload.decoder raw with
        | .error cause => .error (.undecodable path cause)
        | .ok payload =>
          if payload.fingerprint ≠ fingerprint then
            .error (.foreign path payload.fingerprint fingerprint)
          else .ok payload.results

end Checkpoint

structure Store where
  directory : String

namespace Store

open Checkpoint

def ofConfig (c : Config) : Store := ⟨c.checkpoint.directory⟩

def path (s : Store) (c : Config) : String := Path.join s.directory c.fileName

def hasFile (s : Store) (c : Config) (files : Files.Tree) : Bool := files.isFile (s.path c)

def render (c : Config) (time : String) (results : ResultSet) : String :=
  (Payload.encode ⟨Payload.currentVersion, c.fingerprint, some time, results⟩).pretty

/-- Replaces the checkpoint of a configuration, making the directory first. -/
def save (s : Store) (c : Config) (time : String) (results : ResultSet) (files : Files.Tree) :
    Except Fault String × Files.Tree :=
  match files.makeDirectories s.directory with
  | (.error cause, files) => (.error (.files .makeDirectory s.directory cause), files)
  | (.ok (), files) =>
    match files.write (s.path c) (render c time results).toUTF8 with
    | .ok files => (.ok (s.path c), files)
    | .error cause => (.error (.files .replace (s.path c) cause), files)

def load (s : Store) (c : Config) (files : Files.Tree) : Except Fault State :=
  match files.read (s.path c) with
  | .error .notFound => .ok .noCheckpoint
  | .error cause => .error (.files .read (s.path c) cause)
  | .ok bytes => (accept (s.path c) c.fingerprint bytes).map .restored

/-- Takes the checkpoint of a configuration away; gives whether there was one. -/
def discard (s : Store) (c : Config) (files : Files.Tree) : Except Fault Bool × Files.Tree :=
  match files.remove (s.path c) with
  | .ok files => (.ok true, files)
  | .error .notFound => (.ok false, files)
  | .error cause => (.error (.files .remove (s.path c) cause), files)

end Store

end GridSweep
