import GridSweep.Decode.Node
import GridSweep.Number.Layout
import GridSweep.Text.Quoted

namespace GridSweep.Decode

inductive Found where
  | null
  | bool (b : Bool)
  | num (n : Number)
  | text (s : String)
  | sequence
  | map
  | unitVariant

def Found.describe : Found → String
  | null => "null"
  | bool b => "boolean `" ++ (if b then "true" else "false") ++ "`"
  | num (.int i) => "integer `" ++ toString i ++ "`"
  | num (.float x) => "floating point `" ++ (Number.float x).text ++ "`"
  | text s => "string " ++ Quoted.ofText s
  | sequence => "sequence"
  | map => "map"
  | unitVariant => "unit variant"

inductive Failure where
  /-- The input is not of the notation at all. -/
  | malformed
  | wrongType (found : Found) (expected : String)
  | wrongValue (found : Found) (expected : String)
  | wrongLength (length : Nat) (expected : String)
  | unknownVariant (name : String) (known : List String)
  | missingField (name : String)
  | duplicateField (name : String)
  /-- The parts fit but the whole breaks a rule of the type. -/
  | rejected (message : String)

namespace Failure

def ticked (s : String) : String := "`" ++ s ++ "`"

def alternatives : List String → String
  | [] => "there are no variants"
  | [a] => "expected " ++ ticked a
  | [a, b] => "expected " ++ ticked a ++ " or " ++ ticked b
  | names => "expected one of " ++ String.intercalate ", " (names.map ticked)

def message : Failure → String
  | malformed => "malformed input"
  | wrongType found expected => "invalid type: " ++ found.describe ++ ", expected " ++ expected
  | wrongValue found expected => "invalid value: " ++ found.describe ++ ", expected " ++ expected
  | wrongLength n expected => "invalid length " ++ toString n ++ ", expected " ++ expected
  | unknownVariant name known => "unknown variant " ++ ticked name ++ ", " ++ alternatives known
  | missingField name => "missing field " ++ ticked name
  | duplicateField name => "duplicate field " ++ ticked name
  | rejected m => m

end Failure

/-- The failure of a reader that expected something else than the node. Scalars of a document that
do not fit are reported like a malformed one. -/
def mismatch (expected : String) : Node → Failure
  | .null => .wrongType .null expected
  | .bool b => .wrongType (.bool b) expected
  | .num n => .wrongType (.num n) expected
  | .str s => .wrongType (.text s) expected
  | .seq _ => .wrongType .sequence expected
  | .map _ => .wrongType .map expected
  | .word _ | .named _ _ | .reference _ | .void | .unreadable | .misplaced _ | .cut => .malformed

end GridSweep.Decode
