import GridSweep.Decode.Record
import GridSweep.Json.Reader
import GridSweep.Json.Writer

namespace GridSweep

structure Diagnostic where
  code : String
  message : String
  context : SortedTable String
  hint : Option String
  deriving DecidableEq

namespace Diagnostic

def of (code message : String) (context : List (String × String)) : Diagnostic :=
  ⟨code, message, .ofList context, none⟩

def withHint (d : Diagnostic) (hint : String) : Diagnostic := { d with hint := some hint }

def withContext (d : Diagnostic) (name value : String) : Diagnostic :=
  { d with context := d.context.insert name value }

def displayContext (d : Diagnostic) : String :=
  if d.context.isEmpty then ""
  else
    let parts := d.context.entries.map fun e => e.1 ++ "=" ++ e.2
    " | context: [" ++ String.intercalate ", " parts ++ "]"

def displayHint : Option String → String
  | none => ""
  | some hint => " | hint: " ++ hint

def display (d : Diagnostic) : String :=
  d.message ++ " (code: " ++ d.code ++ ")" ++ d.displayContext ++ displayHint d.hint

def encode (d : Diagnostic) : Json :=
  .obj ([("code", .str d.code), ("message", .str d.message),
    ("context", .ofEntries .str d.context.entries)] ++ Json.ifAny "hint" .str d.hint)

open Decode in
def record :=
  ((Record.field (.needed "code" text)).and
    ((Record.field (.needed "message" text)).and
      ((Record.field (.defaulted "context" (sortedTable text) .empty)).and
        (Record.field (.optional "hint" text))))).map
    fun (code, message, context, hint) => Diagnostic.mk code message context hint

def decoder : Decode.Decoder Diagnostic := record.decoder "struct ErrorInfo"

end Diagnostic

end GridSweep
