import GridSweep.Proofs.Results.Index

/-!
Result sets changed in place. Adding a record changes the places, the points and the records one after
the other, but the only fault comes before the first change (`add_parts`). Where many records are added
a refused one leaves those before it, so a set that is made of them is built apart (`replaced_parts`).
-/
namespace GridSweep.ResultSet

/-- The parts of a result set, of which nothing says that they agree. -/
structure Parts where
  records : List RunRecord
  places : Table Nat
  points : List (String × String)

def parts (s : ResultSet) : Parts := ⟨s.records, s.places, s.points⟩

namespace Parts

/-- The answer, and the parts as they then are. -/
def add (p : Parts) (r : RunRecord) : Except Fault Unit × Parts :=
  if p.places.contains r.name then (.error (.duplicateName r.name r.model), p)
  else
    let placed := { p with places := p.places.insert r.name p.records.length }
    let covered := { placed with points := Points.insert placed.points r.point }
    (.ok (), { covered with records := covered.records ++ [r] })

/-- Records added one after the other, up to the first that is refused. -/
def addAll (p : Parts) : List RunRecord → Except Fault Unit × Parts
  | [] => (.ok (), p)
  | r :: rest =>
    match p.add r with
    | (.ok (), q) => q.addAll rest
    | (.error fault, q) => (.error fault, q)

/-- The parts of a set of these records, if there is a list and it makes one; else those of before. -/
def replaced (p : Parts) (new : Option (List RunRecord)) : Parts :=
  match new.map empty.parts.addAll with
  | some (.ok (), q) => q
  | _ => p

end Parts

/-- Adding in place makes the set that `add` gives, or it fails and the parts are what they were. -/
theorem add_parts (s : ResultSet) (r : RunRecord) :
    s.parts.add r = match s.add r with
      | .ok t => (.ok (), t.parts)
      | .error fault => (.error fault, s.parts) := by
  by_cases taken : s.places.contains r.name = true
  · rw [add, dif_pos taken]
    exact if_pos taken
  · rw [add, dif_neg taken]
    exact if_neg taken

theorem addAll_parts (s : ResultSet) (l : List RunRecord) :
    match l.foldlM add s with
    | .ok t => s.parts.addAll l = (.ok (), t.parts)
    | .error fault => (s.parts.addAll l).1 = .error fault := by
  induction l generalizing s with
  | nil => rfl
  | cons r rest ih =>
    rw [List.foldlM_cons, Parts.addAll, add_parts]
    cases s.add r with
    | error fault => rfl
    | ok t => exact ih t

theorem replaced_parts (s : ResultSet) (new : Option (List RunRecord)) :
    s.parts.replaced new = ((new.bind fun l => (ofRecords l).toOption).getD s).parts := by
  cases new with
  | none => rfl
  | some l =>
    have told := addAll_parts empty l
    rw [Parts.replaced, Option.map_some, Option.bind_some, ofRecords]
    cases made : l.foldlM add empty with
    | ok t =>
      rw [made] at told
      rw [told]
      rfl
    | error fault =>
      rw [made] at told
      rw [← Prod.eta (empty.parts.addAll l), told]
      rfl

end GridSweep.ResultSet
