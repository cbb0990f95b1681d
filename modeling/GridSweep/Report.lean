import GridSweep.Decode.Variant
import GridSweep.Diagnostic

namespace GridSweep

/-- The kinds of one family: all of them, the name each is stored by, and the phrase it opens with. -/
class Kind (κ : Type) where
  all : List κ
  name : κ → String
  phrase : κ → String
  /-- What messages call the family. -/
  family : String

structure Report (κ : Type) where
  kind : κ
  diagnostic : Diagnostic
  deriving DecidableEq

namespace Report

variable {κ : Type} [Kind κ]

def display (r : Report κ) : String := Kind.phrase r.kind ++ ": " ++ r.diagnostic.display

def encode (r : Report κ) : Json :=
  .obj [("kind", .str (Kind.name r.kind)), ("detail", r.diagnostic.encode)]

def kindNamed? (name : String) : Option κ := Kind.all.find? fun k : κ => Kind.name k == name

open Decode in
def decoder : Decoder (Report κ) :=
  adjacentlyTagged ("adjacently tagged enum " ++ Kind.family κ) "kind" "detail"
    ((Kind.all : List κ).map Kind.name) fun name c n => do
      let d ← Diagnostic.decoder c n
      match kindNamed? name with
      | some k => return ⟨k, d⟩
      | none => throw (.missingField "kind")

end Report

inductive DomainKind where
  | unknownModel
  | invalidParameter
  deriving DecidableEq

instance : Kind DomainKind where
  all := [.unknownModel, .invalidParameter]
  name
    | .unknownModel => "UnknownModel"
    | .invalidParameter => "InvalidParameter"
  phrase
    | .unknownModel => "unknown model"
    | .invalidParameter => "invalid parameter"
  family := "DomainError"

inductive ResultKind where
  | duplicateName
  | notFound
  | emptySet
  | metricMissing
  deriving DecidableEq

instance : Kind ResultKind where
  all := [.duplicateName, .notFound, .emptySet, .metricMissing]
  name
    | .duplicateName => "DuplicateName"
    | .notFound => "NotFound"
    | .emptySet => "EmptySet"
    | .metricMissing => "MetricMissing"
  phrase
    | .duplicateName => "duplicate run name"
    | .notFound => "run not found"
    | .emptySet => "empty result set"
    | .metricMissing => "metric missing"
  family := "ResultError"

inductive CheckpointKind where
  | schemaMismatch
  | corrupt
  | configMismatch
  | ioFailure
  deriving DecidableEq

instance : Kind CheckpointKind where
  all := [.schemaMismatch, .corrupt, .configMismatch, .ioFailure]
  name
    | .schemaMismatch => "SchemaMismatch"
    | .corrupt => "Corrupt"
    | .configMismatch => "ConfigMismatch"
    | .ioFailure => "IoFailure"
  phrase
    | .schemaMismatch => "checkpoint schema mismatch"
    | .corrupt => "corrupt checkpoint"
    | .configMismatch => "checkpoint config mismatch"
    | .ioFailure => "checkpoint io failure"
  family := "CheckpointError"

abbrev DomainError := Report DomainKind
abbrev ResultError := Report ResultKind
abbrev CheckpointError := Report CheckpointKind

inductive SweepError where
  | domain (e : DomainError)
  | results (e : ResultError)
  | checkpoint (e : CheckpointError)
  | config (d : Diagnostic)
  | measurement (d : Diagnostic)
  | encoding (d : Diagnostic)
  deriving DecidableEq

namespace SweepError

def diagnostic : SweepError → Diagnostic
  | domain e => e.diagnostic
  | results e => e.diagnostic
  | checkpoint e => e.diagnostic
  | config d | measurement d | encoding d => d

def families : List String :=
  ["Domain", "Results", "Checkpoint", "Config", "Measurement", "Serde"]

def family : SweepError → String
  | domain _ => "Domain"
  | results _ => "Results"
  | checkpoint _ => "Checkpoint"
  | config _ => "Config"
  | measurement _ => "Measurement"
  | encoding _ => "Serde"

def display : SweepError → String
  | domain e => "domain error: " ++ e.display
  | results e => "result error: " ++ e.display
  | checkpoint e => "checkpoint error: " ++ e.display
  | config d => "config error: " ++ d.display
  | measurement d => "measurement error: " ++ d.display
  | encoding d => "serde error: " ++ d.display

def detail : SweepError → Json
  | domain e => e.encode
  | results e => e.encode
  | checkpoint e => e.encode
  | config d | measurement d | encoding d => d.encode

def encode (e : SweepError) : Json := .obj [("family", .str e.family), ("detail", e.detail)]

open Decode in
def decoder : Decoder SweepError :=
  adjacentlyTagged "adjacently tagged enum SweepError" "family" "detail" families
    fun name c n =>
      if name = "Domain" then domain <$> Report.decoder c n
      else if name = "Results" then results <$> Report.decoder c n
      else if name = "Checkpoint" then checkpoint <$> Report.decoder c n
      else if name = "Config" then config <$> Diagnostic.decoder c n
      else if name = "Measurement" then measurement <$> Diagnostic.decoder c n
      else encoding <$> Diagnostic.decoder c n

end SweepError

end GridSweep
