import GridSweep.Results.Constraint

namespace GridSweep

inductive Direction where
  | maximize
  | minimize
  deriving DecidableEq

namespace Direction

def prefers (d : Direction) (x y : Double) : Bool :=
  match d with
  | maximize => decide (y.rank ≤ x.rank)
  | minimize => decide (x.rank ≤ y.rank)

def encode : Direction → Json
  | maximize => .str "maximize"
  | minimize => .str "minimize"

open Decode in
def decoder : Decoder Direction :=
  enumeration ["maximize", "minimize"]
    (.bare fun name => if name = "maximize" then maximize else minimize)

end Direction

namespace Points

def insert (points : List (String × String)) (point : String × String) : List (String × String) :=
  if points.contains point then points else points ++ [point]

def ofList (l : List (String × String)) : List (String × String) := l.foldl insert []

theorem mem_insert {points : List (String × String)} {point x : String × String} :
    x ∈ insert points point ↔ x ∈ points ∨ x = point := by
  unfold insert
  split
  · rename_i known
    constructor
    · exact .inl
    · rintro (h | rfl)
      · exact h
      · exact List.contains_iff_mem.mp known
  · simp

theorem mem_ofList {l : List (String × String)} {x : String × String} : x ∈ ofList l ↔ x ∈ l := by
  have general (points : List (String × String)) : x ∈ l.foldl insert points ↔ x ∈ points ∨ x ∈ l := by
    induction l generalizing points with
    | nil => simp
    | cons a rest ih => rw [List.foldl_cons, ih, mem_insert, List.mem_cons, or_assoc]
  simpa [ofList] using general []

end Points

structure ResultSet where
  records : List RunRecord
  /-- Where the record of each name stands, kept for look-ups. -/
  places : Table Nat
  places_eq : places.entries = (records.map RunRecord.name).zipIdx
  /-- The grid points of the records, each once, kept for look-ups. -/
  points : List (String × String)
  points_eq : points = Points.ofList (records.map RunRecord.point)

namespace ResultSet

inductive Fault where
  | duplicateName (name model : String)
  | notFound (name : String)
  | emptySet (metric : String)
  | metricMissing (metric : String) (records : Nat)

def Fault.report : Fault → ResultError
  | duplicateName name model =>
    ⟨.duplicateName, .of "result-duplicate-name" "run name already present"
      [("name", name), ("model", model)]⟩
  | notFound name => ⟨.notFound, .of "result-not-found" "no run with that name" [("name", name)]⟩
  | emptySet metric =>
    ⟨.emptySet, .of "result-empty" "result set has no records" [("metric", metric)]⟩
  | metricMissing metric records =>
    ⟨.metricMissing, .of "result-metric-missing" "no record carries the metric"
      [("metric", metric), ("records", toString records)]⟩

def empty : ResultSet := ⟨[], .empty, rfl, [], rfl⟩

instance : Inhabited ResultSet := ⟨empty⟩

def size (s : ResultSet) : Nat := s.records.length
def isEmpty (s : ResultSet) : Bool := s.records.isEmpty
def names (s : ResultSet) : List String := s.records.map RunRecord.name

theorem names_places (s : ResultSet) : s.places.names = s.names := by
  rw [Table.names, s.places_eq, List.zipIdx_map_fst]
  rfl

theorem distinct (s : ResultSet) : (s.records.map RunRecord.name).Nodup := by
  have keys : s.places.names.Nodup := s.places.distinct
  rwa [s.names_places] at keys

theorem contains_places {s : ResultSet} {name : String} :
    s.places.contains name = true ↔ name ∈ s.names := by
  rw [Table.contains_iff, s.names_places]

theorem places_insert {s : ResultSet} {r : RunRecord} (fresh : ¬ s.places.contains r.name = true) :
    (s.places.insert r.name s.size).entries =
      ((s.records ++ [r]).map RunRecord.name).zipIdx := by
  rw [Table.contains_iff] at fresh
  simp [Table.insert_of_fresh fresh, s.places_eq, List.zipIdx_append, size]

theorem points_insert (s : ResultSet) (r : RunRecord) :
    Points.insert s.points r.point = Points.ofList ((s.records ++ [r]).map RunRecord.point) := by
  simp [s.points_eq, Points.ofList]

/-- Appends a record, unless its name is taken. -/
def add (s : ResultSet) (r : RunRecord) : Except Fault ResultSet :=
  if taken : s.places.contains r.name = true then .error (.duplicateName r.name r.model)
  else .ok {
    records := s.records ++ [r]
    places := s.places.insert r.name s.size
    places_eq := places_insert taken
    points := Points.insert s.points r.point
    points_eq := s.points_insert r }

theorem add_of_fresh {s : ResultSet} {r : RunRecord} (fresh : r.name ∉ s.names) :
    ∃ t, s.add r = .ok t ∧ t.records = s.records ++ [r] :=
  ⟨_, dif_neg fun taken => fresh (contains_places.mp taken), rfl⟩

theorem add_of_taken {s : ResultSet} {r : RunRecord} (taken : r.name ∈ s.names) :
    s.add r = .error (.duplicateName r.name r.model) :=
  dif_pos (contains_places.mpr taken)

def ofRecords (l : List RunRecord) : Except Fault ResultSet := l.foldlM add empty

theorem place_lt {s : ResultSet} {name : String} {i : Nat} (found : s.places.find? name = some i) :
    i < s.records.length := by
  have placed := Entries.mem_of_find? found
  rw [s.places_eq] at placed
  simpa using List.snd_lt_of_mem_zipIdx placed

def get (s : ResultSet) (name : String) : Except Fault RunRecord :=
  match found : s.places.find? name with
  | some i => .ok (s.records.get ⟨i, place_lt found⟩)
  | none => .error (.notFound name)

/-- Whether a record under this model's name covers the grid point of the objective. -/
def contains (s : ResultSet) (model : String) (o : Objective) : Bool :=
  !s.points.isEmpty && s.points.contains (model, o.gridKey)

theorem contains_eq_any (s : ResultSet) (model : String) (o : Objective) :
    s.contains model o = s.records.any fun r => r.point == (model, o.gridKey) := by
  have known : s.contains model o = s.points.contains (model, o.gridKey) := by
    rw [contains]
    cases s.points <;> simp
  rw [known, s.points_eq, Bool.eq_iff_iff]
  simp [Points.mem_ofList]

def carrying (s : ResultSet) (metric : String) : List (RunRecord × Double) :=
  s.records.filterMap fun r => (r.metric? metric).map fun x => (r, x)

/-- The better of a record held and one that comes later; the one held if they are equal. -/
def better (d : Direction) (held : Option (RunRecord × Double)) (later : RunRecord × Double) :
    Option (RunRecord × Double) :=
  match held with
  | none => some later
  | some best => if d.prefers best.2 later.2 then some best else some later

/-- The record with the best value of a metric, the first of equals. -/
def best (s : ResultSet) (metric : String) (d : Direction) : Except Fault RunRecord :=
  if s.isEmpty then .error (.emptySet metric)
  else match (s.carrying metric).foldl (better d) none with
    | some r => .ok r.1
    | none => .error (.metricMissing metric s.size)

/-- Up to `n` records that carry a metric, the best first, equals in the order of the set. -/
def top (s : ResultSet) (metric : String) (d : Direction) (n : Nat) : List RunRecord :=
  (((s.carrying metric).mergeSort fun a b => d.prefers a.2 b.2).take n).map Prod.fst

def passing (s : ResultSet) (constraints : List MetricConstraint) : List RunRecord :=
  s.records.filter fun r => constraints.all (·.holds r)

def failing (s : ResultSet) (constraints : List MetricConstraint) : List RunRecord :=
  s.records.filter fun r => !constraints.all (·.holds r)

def ofModel (s : ResultSet) (model : String) : List RunRecord :=
  s.records.filter (·.model == model)

def sameRecords : List RunRecord → List RunRecord → Bool
  | [], [] => true
  | a :: rest, b :: others => a.same b && sameRecords rest others
  | _, _ => false

/-- Equality of the records, in their order. -/
def same (s t : ResultSet) : Bool := sameRecords s.records t.records

def encode (s : ResultSet) : Json := .arr (s.records.map RunRecord.encode)

open Decode in
def decoder : Decoder ResultSet := fun c n => do
  match ofRecords (← list RunRecord.decoder c n) with
  | .ok s => return s
  | .error e => throw (.rejected e.report.display)

end ResultSet

end GridSweep
