import GridSweep.Config.Basic
import GridSweep.Files.Tree
import GridSweep.Yaml.Document

namespace GridSweep.Config

inductive Fault where
  | unreadable (path : String) (cause : Files.Fault)
  | undecodable (path : String) (cause : Decode.Failure)
  | undeclarable (cause : Domain.Fault)

def yamlDiagnostic (e : Decode.Failure) : Diagnostic := .of "yaml_deserialize" e.message []

def Fault.error : Fault → SweepError
  | unreadable path cause => .config (.of "config-read" cause.message [("path", path)])
  | undecodable path cause => .config ((yamlDiagnostic cause).withContext "path" path)
  | undeclarable cause => .domain cause.report

def baseOf (path : String) : String := (Path.parent? path).getD "."

def load (files : Files.Tree) (path : String) : Except Fault Config :=
  match files.read path with
  | .error cause => .error (.unreadable path cause)
  | .ok bytes => match Yaml.decodeBytes SweepFile.decoder bytes with
    | .error cause => .error (.undecodable path cause)
    | .ok file => match ofFile file (baseOf path) with
      | .error cause => .error (.undeclarable cause)
      | .ok config => .ok config

end GridSweep.Config
