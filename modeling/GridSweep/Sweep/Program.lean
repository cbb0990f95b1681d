import GridSweep.Sweep.Basic
import GridSweep.Text.Blank
import GridSweep.Text.Utf8

/-!
Measuring with a program: it gets a request as JSON on its input and prints its metrics as one JSON
object. `Program.judge` says what a finished run of it amounts to. A program need not read its input, so
that its end of the pipe is closed is no fault (`Program.Child.finished`).
-/
namespace GridSweep

namespace Program

inductive Ending where
  | exited (code : Nat)
  | signalled (number : Nat)

structure Finished where
  output : ByteArray
  errors : ByteArray
  ending : Ending

/-- Why an input was not written in full: the program has closed its end, or anything else. -/
inductive InputFault where
  | brokenPipe
  | failed (cause : String)

/-- A program that was started: what came of writing its input, and how it finished if it was waited
for, or why that cannot be told. -/
structure Child where
  input : Except InputFault Unit
  finish : Except String Finished

/-- A program that takes its whole input and can be waited for. -/
instance childOfFinished : Coe Finished Child := ⟨fun f => ⟨.ok (), .ok f⟩⟩

/-- Starts a program with arguments and an input; the error says why it could not be started. -/
abbrev Launcher := String → List String → String → Except String Child

/-- Why a program that is not there cannot be started. A name without a slash is looked up where
programs are kept; anything else is a path, and no file of a tree is a program. -/
def startFault (files : Files.Tree) (program : String) : String :=
  if program.toList.contains '\x00' then "nul byte found in provided data"
  else if program.toList.contains '/' then
    match files.entry program with
    | .error cause => cause.message
    | .ok _ => Files.Fault.denied.message
  else if Files.Tree.nameLimit < program.utf8ByteSize then Files.Fault.nameTooLong.message
  else if program = "." ∨ program = ".." then Files.Fault.denied.message
  else Files.Fault.notFound.message

namespace Ending

def signalNames : List String := [
  "SIGHUP", "SIGINT", "SIGQUIT", "SIGILL", "SIGTRAP", "SIGABRT", "SIGBUS", "SIGFPE", "SIGKILL",
  "SIGUSR1", "SIGSEGV", "SIGUSR2", "SIGPIPE", "SIGALRM", "SIGTERM", "SIGSTKFLT", "SIGCHLD",
  "SIGCONT", "SIGSTOP", "SIGTSTP", "SIGTTIN", "SIGTTOU", "SIGURG", "SIGXCPU", "SIGXFSZ",
  "SIGVTALRM", "SIGPROF", "SIGWINCH", "SIGIO", "SIGPWR", "SIGSYS"]

def signalName? (number : Nat) : Option String :=
  if number = 0 then none else signalNames[number - 1]?

def isSuccess : Ending → Bool
  | exited code => code == 0
  | signalled _ => false

def display : Ending → String
  | exited code => "exit status: " ++ toString code
  | signalled number =>
    "signal: " ++ toString number ++ match signalName? number with
      | some name => " (" ++ name ++ ")"
      | none => ""

end Ending

inductive Fault where
  | notStarted (program cause : String)
  | notWritten (cause : String)
  | notAwaited (cause : String)
  | unsuccessful (ending : Ending) (errors : ByteArray)
  | notJson
  | notObject
  | notNumber (metric : String) (value : Json)

def Fault.error (run : String) : Fault → SweepError
  | notStarted program cause =>
    .measurement (.of "measure-spawn" cause [("run", run), ("program", program)])
  | notWritten cause => .measurement (.of "measure-stdin" cause [("run", run)])
  | notAwaited cause => .measurement (.of "measure-wait" cause [("run", run)])
  | unsuccessful ending errors =>
    .measurement (.of "measure-exit" ("measurement program " ++ ending.display)
      [("run", run), ("stderr", trimmed (Utf8.lenient errors))])
  | notJson => .measurement (.of "measure-output" Decode.Failure.malformed.message [("run", run)])
  | notObject =>
    .measurement (.of "measure-output" "expected a JSON object of metrics" [("run", run)])
  | notNumber metric value => Sweep.metricError run metric value.compact

def request (run : String) (o : Objective) : String :=
  (Json.obj [("run_name", .str run), ("model_name", .str o.model),
    ("parameters", o.encodeValues), ("distributions", o.encodeDistributions)]).compact

/-- The metrics of an object, up to the first value that is no number. -/
def metrics : List (String × Json) → Except Fault (List (String × Double))
  | [] => .ok []
  | (name, .num n) :: rest => (metrics rest).map fun l => (name, n.toDouble) :: l
  | (name, value) :: _ => .error (.notNumber name value)

def readMetrics (output : ByteArray) : Except Fault (SortedTable Double) :=
  match Json.parseBytes? output with
  | none => .error .notJson
  | some (.obj members) => (metrics members).map SortedTable.ofList
  | some _ => .error .notObject

def judge (f : Finished) : Except Fault (SortedTable Double) :=
  if f.ending.isSuccess then readMetrics f.output else .error (.unsuccessful f.ending f.errors)

/-- How a program finished that has its input, or does not read on. -/
def Child.finished (child : Child) : Except Fault Finished :=
  match child.input with
  | .error (.failed cause) => .error (.notWritten cause)
  | .ok () | .error .brokenPipe => child.finish.mapError .notAwaited

def measure (launch : Launcher) (program : String) (arguments : List String) (run : String)
    (o : Objective) : Except Fault RunRecord :=
  match launch program arguments (request run o) with
  | .error cause => .error (.notStarted program cause)
  | .ok child => child.finished.bind fun f => (judge f).map (.of run o)

def measurer (launch : Launcher) (program : String) (arguments : List String) :
    Sweep.Measurer Unit := fun run o _ memory =>
  match measure launch program arguments run o with
  | .ok r => (.ok r, memory)
  | .error e => (.error (e.error run), memory)

end Program

end GridSweep
