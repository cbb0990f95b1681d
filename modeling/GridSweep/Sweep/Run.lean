import GridSweep.Grid.Walk
import GridSweep.Sweep.Basic

/-!
Running a sweep: restore what is there, visit every objective in order, save on the way and at the
end. An objective on record is skipped; past the limit it is left for another time; else it is
measured, and a good record joins the results.
-/
namespace GridSweep.Sweep

structure Task (μ : Type) where
  config : Config
  store : Store
  options : Options
  time : String
  measurer : Measurer μ

structure Progress (μ : Type) where
  results : ResultSet
  measured : Nat
  skipped : Nat
  failed : Nat
  remaining : Nat
  unsaved : Nat
  files : Files.Tree
  memory : μ

namespace Progress

variable {μ : Type}

def start (results : ResultSet) (files : Files.Tree) (memory : μ) : Progress μ :=
  ⟨results, 0, 0, 0, 0, 0, files, memory⟩

def attempts (p : Progress μ) : Nat := p.measured + p.failed

def outcome (p : Progress μ) : Outcome := ⟨p.measured, p.skipped, p.failed, p.remaining, p.results⟩

end Progress

variable {μ : Type}

/-- What a measurement came to: an error that ends the sweep, a failure, or a good record. -/
inductive Verdict where
  | fatal (e : SweepError)
  | failure
  | good (r : RunRecord)

/-- A record of another objective is fatal; a metric that is not finite makes a failure. -/
def judge (name : String) (o : Objective) : Except SweepError RunRecord → Verdict
  | .error _ => .failure
  | .ok r =>
    if !answers o r then .fatal (contractError name o r)
    else if (badMetric? r).isSome then .failure
    else .good r

/-- Adds a record to the results; a name that is taken ends the sweep. -/
def addRecord (p : Progress μ) (r : RunRecord) : Except SweepError (Progress μ) :=
  match p.results.add r with
  | .ok results => .ok { p with results, unsaved := p.unsaved + 1 }
  | .error e => .error (.results e.report)

def settle (t : Task μ) (name : String) (o : Objective) (p : Progress μ) :
    Verdict → Except SweepError (Progress μ)
  | .fatal e => .error e
  | .good r => (addRecord p r).map fun p => { p with measured := p.measured + 1 }
  | .failure =>
    let p := { p with failed := p.failed + 1 }
    match t.options.policy with
    | .skip => .ok p
    | .record => addRecord p (failedRecord name o)

def save (t : Task μ) (p : Progress μ) : Except SweepError Unit × Progress μ :=
  match t.store.save t.config t.time p.results p.files with
  | (.ok _, files) => (.ok (), { p with files, unsaved := 0 })
  | (.error e, files) => (.error (.checkpoint e.report), { p with files })

def isDue (t : Task μ) (p : Progress μ) : Bool :=
  decide (0 < t.options.interval) && decide (t.options.interval ≤ p.unsaved)

def measure (t : Task μ) (p : Progress μ) (name : String) (o : Objective) :
    Except SweepError RunRecord × Progress μ :=
  let (answer, memory) := t.measurer name o p.files p.memory
  (answer, { p with memory })

def visit (t : Task μ) (item : String × Objective) : Step (Progress μ) SweepError := fun p =>
  let (name, o) := item
  if p.results.contains o.model o then (.ok (), { p with skipped := p.skipped + 1 })
  else if t.options.limit.any (· ≤ p.attempts) then
    (.ok (), { p with remaining := p.remaining + 1 })
  else
    let (answer, p) := measure t p name o
    match settle t name o p (judge name o answer) with
    | .error e => (.error e, p)
    | .ok p => if isDue t p then save t p else (.ok (), p)

/-- Discards the checkpoint if the options ask for it, and restores what is there then. -/
def restore (t : Task μ) (files : Files.Tree) : Except SweepError ResultSet × Files.Tree :=
  let load (files : Files.Tree) : Except SweepError ResultSet × Files.Tree :=
    match t.store.load t.config files with
    | .ok state => (.ok state.results, files)
    | .error e => (.error (.checkpoint e.report), files)
  if t.options.clean then
    match t.store.discard t.config files with
    | (.ok _, files) => load files
    | (.error e, files) => (.error (.checkpoint e.report), files)
  else load files

structure Ending (μ : Type) where
  result : Except SweepError Outcome
  files : Files.Tree
  memory : μ

def run (t : Task μ) (files : Files.Tree) (memory : μ) : Ending μ :=
  match restore t files with
  | (.error e, files) => ⟨.error e, files, memory⟩
  | (.ok results, files) =>
    match t.config.domain.walkNamed (visit t) (.start results files memory) with
    | (.error e, p) => ⟨.error e, p.files, p.memory⟩
    | (.ok (), p) => match save t p with
      | (.error e, p) => ⟨.error e, p.files, p.memory⟩
      | (.ok (), p) => ⟨.ok p.outcome, p.files, p.memory⟩

end GridSweep.Sweep
