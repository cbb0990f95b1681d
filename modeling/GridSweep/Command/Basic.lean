import GridSweep.Command.Line
import GridSweep.Config.Load
import GridSweep.Grid.Count
import GridSweep.Sweep.Program
import GridSweep.Sweep.Run

namespace GridSweep.Command

/-- What a command leaves behind: what it printed before its end, whether it ended in an error, and
the files. -/
structure Ending where
  output : String
  error : Option SweepError
  files : Files.Tree

structure Environment where
  launch : Program.Launcher
  time : String

def lines (l : List String) : String := String.join (l.map (· ++ "\n"))

/-- One objective of a plan: the name of its run and its values. -/
def planLine (json : Bool) (item : String × Objective) : String :=
  if json then
    (Json.obj [("run_name", .str item.1), ("objective", item.2.encode)]).canonical
  else item.1 ++ "\t" ++ item.2.encodeValues.compact

/-- Every objective on a line of its own, after their number unless the lines are JSON. -/
def plan (c : Config) (json : Bool) : String :=
  let objectives := c.domain.named.map (planLine json)
  lines (if json then objectives else (toString c.domain.count ++ " objectives") :: objectives)

def checkpointLine (c : Config) : String := "checkpoint: " ++ (Store.ofConfig c).path c

def outcomeLine (o : Sweep.Outcome) : String :=
  "measured=" ++ toString o.measured ++ " skipped=" ++ toString o.skipped ++ " failed=" ++
    toString o.failed ++ " remaining=" ++ toString o.remaining ++ " records=" ++
    toString o.results.size

def run (e : Environment) (c : Config) (program : String) (arguments : List String)
    (o : Sweep.Options) (files : Files.Tree) : Ending :=
  let ending := Sweep.run ⟨c, Store.ofConfig c, o, e.time,
    Program.measurer e.launch program arguments⟩ files ()
  match ending.result with
  | .error error => ⟨"", some error, ending.files⟩
  | .ok outcome => ⟨lines [outcomeLine outcome, checkpointLine c], none, ending.files⟩

def bestLine (results : ResultSet) (metric : String) (d : Direction) : String :=
  match results.best metric d with
  | .ok r =>
    "best " ++ metric ++ ": " ++ r.name ++ " = " ++ ((r.metric? metric).getD .zero).display
  | .error e => "best " ++ metric ++ ": unavailable (" ++ e.report.display ++ ")"

def constraintLines (c : Config) (results : ResultSet) : List String :=
  if c.constraints.isEmpty then []
  else ["constraints: " ++ toString (results.passing c.constraints).length ++ " passing, " ++
    toString (results.failing c.constraints).length ++ " failing"]

/-- How far the sweep is, its best run by a metric, and how many records keep the constraints. -/
def status (c : Config) (state : Checkpoint.State) (metric : Option String) (minimize : Bool) :
    String :=
  let total := toString c.domain.count
  lines (checkpointLine c :: match state with
    | .noCheckpoint => ["no checkpoint; 0/" ++ total ++ " objectives measured"]
    | .restored results =>
      let best := metric.toList.map fun m =>
        bestLine results m (if minimize then .minimize else .maximize)
      [toString results.size ++ "/" ++ total ++ " objectives measured"] ++ best ++
        constraintLines c results)

def clean (c : Config) (files : Files.Tree) : Ending :=
  let store := Store.ofConfig c
  match store.discard c files with
  | (.error e, files) => ⟨"", some (.checkpoint e.report), files⟩
  | (.ok true, files) => ⟨lines ["removed " ++ store.path c], none, files⟩
  | (.ok false, files) => ⟨lines ["no checkpoint at " ++ store.path c], none, files⟩

def executeWith (e : Environment) (c : Config) (files : Files.Tree) : Line → Ending
  | .plan _ json => ⟨plan c json, none, files⟩
  | .run _ program arguments clean limit recordFailures =>
    run e c program arguments
      { Sweep.Options.ofConfig c with
        clean, limit, policy := if recordFailures then .record else .skip } files
  | .status _ metric minimize =>
    match (Store.ofConfig c).load c files with
    | .error error => ⟨"", some (.checkpoint error.report), files⟩
    | .ok state => ⟨status c state metric minimize, none, files⟩
  | .clean _ => clean c files

def Line.config : Line → String
  | plan config _ | run config _ _ _ _ _ | status config _ _ | clean config => config

def execute (e : Environment) (l : Line) (files : Files.Tree) : Ending :=
  match Config.load files l.config with
  | .error error => ⟨"", some error.error, files⟩
  | .ok c => executeWith e c files l

/-- The exit code, the output and the files after a program call: two for arguments that are no
command line, one for an error, zero else. -/
structure Exit where
  code : Nat
  output : String
  error : Option SweepError
  files : Files.Tree

def call (e : Environment) (arguments : List String) (files : Files.Tree) : Exit :=
  match Line.ofArguments arguments with
  | .error .usage => ⟨2, "", none, files⟩
  | .error .help => ⟨0, "", none, files⟩
  | .ok line =>
    let ending := execute e line files
    ⟨if ending.error.isSome then 1 else 0, ending.output, ending.error, ending.files⟩

end GridSweep.Command
