import GridSweep.Proofs.Table
import GridSweep.Results.Basic

namespace GridSweep.ResultSet

variable {s t : ResultSet} {name : String} {i : Nat} {r : RunRecord}

theorem ext (h : s.records = t.records) : s = t := by
  obtain ⟨records, places, places_eq, points, points_eq⟩ := s
  obtain ⟨records', places', places_eq', points', points_eq'⟩ := t
  obtain rfl : records = records' := h
  obtain rfl : places = places' := Table.ext (places_eq.trans places_eq'.symm)
  obtain rfl : points = points' := points_eq.trans points_eq'.symm
  rfl

theorem find?_places_iff : s.places.find? name = some i ↔ s.names[i]? = some name := by
  have listed : (name, i) ∈ s.places.entries ↔ s.names[i]? = some name := by
    rw [s.places_eq]
    exact List.mk_mem_zipIdx_iff_getElem?
  rw [← listed]
  exact ⟨Entries.mem_of_find?, Entries.find?_of_mem s.places.distinct⟩

theorem find?_places_eq_none_iff : s.places.find? name = none ↔ name ∉ s.names := by
  rw [← s.names_places]
  exact Entries.find?_eq_none_iff

theorem find?_places_of_getElem? (there : s.records[i]? = some r) :
    s.places.find? r.name = some i := by
  apply find?_places_iff.mpr
  simp [names, there]

theorem get_of_place (place : s.places.find? name = some i) (there : s.records[i]? = some r) :
    s.get name = .ok r := by
  unfold get
  split
  · rename_i j found
    obtain rfl : j = i := by simpa [found] using place
    obtain ⟨_, rfl⟩ := List.getElem?_eq_some_iff.mp there
    rfl
  · rename_i missing
    simp [missing] at place

theorem get_of_missing (missing : name ∉ s.names) : s.get name = .error (.notFound name) := by
  unfold get
  split
  · rename_i j found
    simp [find?_places_eq_none_iff.mpr missing] at found
  · rfl

theorem get_eq_ok_iff : s.get name = .ok r ↔ r ∈ s.records ∧ r.name = name := by
  constructor
  · intro got
    by_cases known : name ∈ s.names
    · obtain ⟨i, there⟩ := List.mem_iff_getElem?.mp known
      obtain ⟨r', there', named⟩ : ∃ r', s.records[i]? = some r' ∧ r'.name = name := by
        simpa [names] using there
      rw [get_of_place (find?_places_iff.mpr there) there'] at got
      obtain rfl := Except.ok.inj got
      exact ⟨List.mem_of_getElem? there', named⟩
    · simp [get_of_missing known] at got
  · rintro ⟨known, rfl⟩
    obtain ⟨i, there⟩ := List.mem_iff_getElem?.mp known
    exact get_of_place (find?_places_of_getElem? there) there

theorem get_eq_error_iff {e : Fault} :
    s.get name = .error e ↔ e = .notFound name ∧ name ∉ s.names := by
  constructor
  · intro failed
    have missing : name ∉ s.names := by
      intro known
      obtain ⟨r, hr, named⟩ := List.mem_map.mp known
      simp [get_eq_ok_iff.mpr ⟨hr, named⟩] at failed
    rw [get_of_missing missing] at failed
    exact ⟨(Except.error.inj failed).symm, missing⟩
  · rintro ⟨rfl, missing⟩
    exact get_of_missing missing

end GridSweep.ResultSet
