import GridSweep.Results.Basic

namespace GridSweep

structure Payload where
  version : Nat
  fingerprint : String
  savedAt : Option String
  results : ResultSet

namespace Payload

def currentVersion : Nat := 1

def encode (p : Payload) : Json :=
  .obj ([("schema_version", .ofNat p.version), ("fingerprint", .str p.fingerprint)] ++
    Json.ifAny "saved_at" .str p.savedAt ++ [("results", p.results.encode)])

open Decode in
def record :=
  ((Record.field (.needed "schema_version" (natural .u32))).and
    ((Record.field (.needed "fingerprint" text)).and
      ((Record.field (.free "saved_at" text)).and
        (Record.field (.needed "results" ResultSet.decoder))))).map
    fun (version, fingerprint, savedAt, results) =>
      Payload.mk version fingerprint savedAt results

def decoder : Decode.Decoder Payload := record.decoder "struct CheckpointPayload"

end Payload

end GridSweep
