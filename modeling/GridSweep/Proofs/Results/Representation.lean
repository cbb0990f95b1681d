import GridSweep.Proofs.Checkpoint.RoundTrip
import GridSweep.Proofs.Results.InPlace

/-!
What a result set stands for. Whatever was done to a set since it was empty, it stands for the records
that a plain list would have collected in the same way, and its places and points say of the list what a
search would (`Represents`). Each operation keeps this, also when it fails (`records_apply`), and so do
all operations in a row (`after_represents`).
-/
namespace GridSweep.ResultSet

open Decode

/-- What is done to a variable that holds a result set. -/
inductive Operation where
  | add (r : RunRecord)
  /-- Put the set of these records in its place. -/
  | collect (l : List RunRecord)
  /-- Put the set that a JSON text spells in its place. -/
  | readText (text : String)
  /-- Put the set that a JSON value spells in its place. -/
  | readValue (j : Json)

/-- The set that the operation makes of a set; none if it fails. -/
def Operation.made? (s : ResultSet) : Operation → Option ResultSet
  | add r => (s.add r).toOption
  | collect l => (ofRecords l).toOption
  | readText text => (Json.decodeText decoder text).toOption
  | readValue j => (Json.decodeValue decoder j).toOption

/-- An operation that fails leaves the set as it is. -/
def Operation.apply (s : ResultSet) (op : Operation) : ResultSet := (op.made? s).getD s

def after (ops : List Operation) : ResultSet := ops.foldl Operation.apply empty

/-- The operation in place, on the parts of the variable. -/
def Operation.run (p : Parts) : Operation → Parts
  | add r => (p.add r).2
  | collect l => p.replaced (some l)
  | readText text => p.replaced (Json.decodeText (list RunRecord.decoder) text).toOption
  | readValue j => p.replaced (Json.decodeValue (list RunRecord.decoder) j).toOption

def heldAfter (ops : List Operation) : Parts := ops.foldl Operation.run empty.parts

/-- The new list, if there is one and it repeats no name; else the old one. -/
def renewed (old : List RunRecord) (new : Option (List RunRecord)) : List RunRecord :=
  (new.filter fun l => decide (l.map RunRecord.name).Nodup).getD old

def Operation.collected (l : List RunRecord) : Operation → List RunRecord
  | add r => if r.name ∈ l.map RunRecord.name then l else l ++ [r]
  | collect new => renewed l (some new)
  | readText text => renewed l (Json.decodeText (list RunRecord.decoder) text).toOption
  | readValue j => renewed l (Json.decodeValue (list RunRecord.decoder) j).toOption

def inserted (ops : List Operation) : List RunRecord := ops.foldl Operation.collected []

/-- The set answers for a list of records: its own list is this one, its indexes agree with it, and
nothing but a taken name stops it from growing, in place or not. -/
structure Represents (s : ResultSet) (l : List RunRecord) : Prop where
  records : s.records = l
  distinct : (l.map RunRecord.name).Nodup
  places : ∀ name i, s.places.find? name = some i ↔ ∃ r, l[i]? = some r ∧ r.name = name
  points : ∀ point, point ∈ s.points ↔ ∃ r ∈ l, r.point = point
  get : ∀ name r, s.get name = .ok r ↔ ∃ i, s.places.find? name = some i ∧ l[i]? = some r
  missing : ∀ name e, s.get name = .error e ↔ e = .notFound name ∧ ∀ r ∈ l, r.name ≠ name
  contains : ∀ model o, s.contains model o = true ↔
    ∃ r ∈ l, r.model = model ∧ r.objective.gridKey = o.gridKey
  add : ∀ r, r.name ∉ l.map RunRecord.name →
    ∃ t, s.add r = .ok t ∧ t.records = l ++ [r] ∧ s.parts.add r = (.ok (), t.parts)
  add_taken : ∀ r, r.name ∈ l.map RunRecord.name →
    s.add r = .error (.duplicateName r.name r.model) ∧ Operation.apply s (.add r) = s ∧
      s.parts.add r = (.error (.duplicateName r.name r.model), s.parts)

section Represents

variable {s t : ResultSet} {l : List RunRecord} {r : RunRecord} {name : String} {i : Nat}

theorem names_getElem?_iff :
    s.names[i]? = some name ↔ ∃ r, s.records[i]? = some r ∧ r.name = name := by
  simp [names]

theorem represents_records (s : ResultSet) : Represents s s.records where
  records := rfl
  distinct := s.distinct
  places name i := find?_places_iff.trans names_getElem?_iff
  points point := by
    rw [s.points_eq, Points.mem_ofList]
    exact List.mem_map
  get name r := by
    constructor
    · intro got
      obtain ⟨known, rfl⟩ := get_eq_ok_iff.mp got
      obtain ⟨i, there⟩ := List.mem_iff_getElem?.mp known
      exact ⟨i, find?_places_of_getElem? there, there⟩
    · rintro ⟨i, place, there⟩
      exact get_of_place place there
  missing name e := by
    rw [get_eq_error_iff]
    simp [names]
  contains model o := by
    rw [contains_eq_any]
    simp [RunRecord.point, Prod.ext_iff]
  add r fresh := by
    obtain ⟨t, added, grown⟩ := add_of_fresh fresh
    exact ⟨t, added, grown, by rw [add_parts, added]⟩
  add_taken r taken := by
    have failed := add_of_taken taken
    refine ⟨failed, ?_, by rw [add_parts, failed]⟩
    simp [Operation.apply, Operation.made?, failed, Except.toOption]

theorem records_of_foldlM (folded : l.foldlM ResultSet.add s = .ok t) :
    t.records = s.records ++ l := by
  induction l generalizing s with
  | nil =>
    obtain rfl := Except.ok.inj folded
    exact (List.append_nil _).symm
  | cons r rest ih =>
    rw [List.foldlM_cons] at folded
    by_cases taken : r.name ∈ s.names
    · rw [add_of_taken taken] at folded
      cases folded
    · obtain ⟨s', added, grown⟩ := add_of_fresh taken
      rw [added] at folded
      simp [ih folded, grown]

theorem ofRecords_toOption (l : List RunRecord) :
    (ofRecords l).toOption.map ResultSet.records =
      if (l.map RunRecord.name).Nodup then some l else none := by
  split
  · rename_i distinct
    obtain ⟨t, folded, records⟩ := foldlM_add l empty distinct
    have records : t.records = l := records
    have collected : ofRecords l = .ok t := folded
    simp [collected, Except.toOption, records]
  · rename_i repeated
    cases folded : ofRecords l with
    | error e => rfl
    | ok t =>
      have records : t.records = l := records_of_foldlM folded
      exact absurd (records ▸ t.distinct) repeated

end Represents

section Reading

theorem decodeTree_toOption (c : Context) (aliases : Nat) (n : Node) :
    (decodeTree decoder c aliases n).toOption =
      (decodeTree (list RunRecord.decoder) c aliases n).toOption.bind fun l =>
        (ofRecords l).toOption := by
  simp only [decodeTree, StateT.run', decoder, bind, StateT.bind, Except.bind]
  cases list RunRecord.decoder c n aliases with
  | error e => rfl
  | ok read =>
    obtain ⟨l, left⟩ := read
    cases collected : ofRecords l with
    | error e =>
      have made : (ofRecords l).toOption = none := by rw [collected, Except.toOption]
      simp only [collected]
      exact made.symm
    | ok t =>
      have made : (ofRecords l).toOption = some t := by rw [collected, Except.toOption]
      simp only [collected]
      exact made.symm

theorem decodeText_toOption (text : String) :
    (Json.decodeText decoder text).toOption =
      (Json.decodeText (list RunRecord.decoder) text).toOption.bind fun l =>
        (ofRecords l).toOption := by
  simp only [Json.decodeText, Json.Document.decode_toOption]
  split
  · exact decodeTree_toOption _ _ _
  · rfl

theorem decodeValue_toOption (j : Json) :
    (Json.decodeValue decoder j).toOption =
      (Json.decodeValue (list RunRecord.decoder) j).toOption.bind fun l =>
        (ofRecords l).toOption :=
  decodeTree_toOption _ _ _

end Reading

section Run

/-- A set made of records takes the place of another one, if they repeat no name. -/
theorem records_getD (s : ResultSet) (new : Option (List RunRecord)) :
    ((new.bind fun l => (ofRecords l).toOption).getD s).records = renewed s.records new := by
  cases new with
  | none => rfl
  | some l =>
    have made := ofRecords_toOption l
    simp only [Option.bind_some, renewed, Option.filter_some, decide_eq_true_eq]
    split at made
    · rename_i distinct
      obtain ⟨t, collected, rfl⟩ := Option.map_eq_some_iff.mp made
      simp [collected, distinct]
    · rename_i repeated
      simp [Option.map_eq_none_iff.mp made, repeated]

/-- The step: an operation does to the records of a set what it does to a plain list. -/
theorem records_apply (s : ResultSet) (op : Operation) :
    (op.apply s).records = op.collected s.records := by
  cases op with
  | add r =>
    simp only [Operation.collected]
    split
    · rename_i taken
      exact congrArg records ((represents_records s).add_taken r taken).2.1
    · rename_i fresh
      obtain ⟨t, added, grown, _⟩ := (represents_records s).add r fresh
      simp [Operation.apply, Operation.made?, added, grown, Except.toOption]
  | collect l => exact records_getD s (some l)
  | readText text =>
    rw [Operation.apply, Operation.made?, decodeText_toOption]
    exact records_getD s _
  | readValue j =>
    rw [Operation.apply, Operation.made?, decodeValue_toOption]
    exact records_getD s _

theorem records_after (ops : List Operation) : (after ops).records = inserted ops := by
  have general (s : ResultSet) : (ops.foldl Operation.apply s).records =
      ops.foldl Operation.collected s.records := by
    induction ops generalizing s with
    | nil => rfl
    | cons op rest ih => rw [List.foldl_cons, List.foldl_cons, ih, records_apply]
  exact general empty

/-- The step in place: it gives the parts of the set that the operation gives, also if that fails. -/
theorem run_parts (s : ResultSet) (op : Operation) : op.run s.parts = (op.apply s).parts := by
  cases op with
  | add r =>
    rw [Operation.run, add_parts, Operation.apply, Operation.made?]
    cases s.add r <;> rfl
  | collect l => exact replaced_parts s (some l)
  | readText text =>
    rw [Operation.apply, Operation.made?, decodeText_toOption]
    exact replaced_parts s _
  | readValue j =>
    rw [Operation.apply, Operation.made?, decodeValue_toOption]
    exact replaced_parts s _

theorem heldAfter_eq (ops : List Operation) : heldAfter ops = (after ops).parts :=
  List.foldl_hom parts run_parts

theorem inserted_adds (ops : List Operation) (later : List RunRecord) :
    inserted ops <+: inserted (ops ++ later.map .add) := by
  have general (l : List RunRecord) : l <+: (later.map .add).foldl Operation.collected l := by
    induction later generalizing l with
    | nil => exact List.prefix_refl _
    | cons r rest ih =>
      apply List.IsPrefix.trans _ (ih _)
      simp only [Operation.collected]
      split
      · exact List.prefix_refl _
      · exact List.prefix_append _ _
  simpa [inserted, List.foldl_append] using general _

theorem getElem?_of_add {ops : List Operation} {r : RunRecord} {t : ResultSet}
    (added : (after ops).add r = .ok t) (later : List RunRecord) :
    (after (ops ++ .add r :: later.map .add)).records[(after ops).size]? = some r := by
  have fresh : r.name ∉ (after ops).names := by
    intro taken
    simp [add_of_taken taken] at added
  have joined : inserted (ops ++ [.add r]) = (after ops).records ++ [r] := by
    have fresh : r.name ∉ (inserted ops).map RunRecord.name := records_after ops ▸ fresh
    rw [records_after]
    simpa [inserted, List.foldl_append, Operation.collected] using fresh
  obtain ⟨more, whole⟩ := inserted_adds (ops ++ [.add r]) later
  have records : (after (ops ++ .add r :: later.map .add)).records =
      (after ops).records ++ r :: more := by
    simpa [records_after, joined] using whole.symm
  simp [records, size]

/-- The set after any operations stands for the records that came in, and the operations in place leave
its parts. A record that joins it has the place behind those before it, and keeps it whatever is added
later. A set can be made of a list of records, and read from one, just when it repeats no name. -/
theorem after_represents (ops : List Operation) :
    Represents (after ops) (inserted ops) ∧ heldAfter ops = (after ops).parts ∧
      (∀ r t, (after ops).add r = .ok t → ∀ later : List RunRecord,
        (after (ops ++ .add r :: later.map .add)).places.find? r.name = some (after ops).size ∧
          (after (ops ++ .add r :: later.map .add)).get r.name = .ok r) ∧
      (∀ l, (∃ e, ofRecords l = .error e) ↔ ¬ (l.map RunRecord.name).Nodup) ∧
      (∀ text l, Json.decodeText (list RunRecord.decoder) text = .ok l →
        ((∃ e, Json.decodeText decoder text = .error e) ↔ ¬ (l.map RunRecord.name).Nodup)) ∧
      ∀ j l, Json.decodeValue (list RunRecord.decoder) j = .ok l →
        ((∃ e, Json.decodeValue decoder j = .error e) ↔ ¬ (l.map RunRecord.name).Nodup) := by
  have fails_iff {ε : Type} {l : List RunRecord} {result : Except ε ResultSet}
      (same : result.toOption = (ofRecords l).toOption) :
      (∃ e, result = .error e) ↔ ¬ (l.map RunRecord.name).Nodup := by
    have made := ofRecords_toOption l
    rw [← same] at made
    split at made
    · rename_i distinct
      cases result with
      | error e => cases made
      | ok t => simp [distinct]
    · rename_i repeated
      cases result with
      | error e => simp [repeated]
      | ok t => cases made
  refine ⟨records_after ops ▸ represents_records _, heldAfter_eq ops, ?_, fun l => fails_iff rfl, ?_,
    ?_⟩
  · intro r t added later
    have there := getElem?_of_add added later
    exact ⟨find?_places_of_getElem? there, get_of_place (find?_places_of_getElem? there) there⟩
  · intro text l read
    apply fails_iff
    rw [decodeText_toOption, read]
    rfl
  · intro j l read
    apply fails_iff
    rw [decodeValue_toOption, read]
    rfl

def bareRecord (name : String) : RunRecord := ⟨name, "n", ⟨"m", .empty, .empty⟩, .empty⟩

/-- The second record is refused, and the third one covers the grid point of the first. -/
def bareHistory : List Operation := [.add (bareRecord "a"), .add (bareRecord "a"), .add (bareRecord "b")]

def bareTwice : Json := .arr [(bareRecord "a").encode, (bareRecord "a").encode]

theorem after_represents_bare :
    (inserted bareHistory).map RunRecord.name = ["a", "b"] ∧
      (∃ t, (after bareHistory).add (bareRecord "c") = .ok t) ∧
      (after (bareHistory ++ [.add (bareRecord "c"), .add (bareRecord "a")])).places.find? "c" =
        some 2 ∧
      (Json.decodeText (list RunRecord.decoder) "[]" = .ok [] ∧
        ¬ ∃ e, Json.decodeText decoder "[]" = .error e) ∧
      Json.decodeValue (list RunRecord.decoder) bareTwice = .ok [bareRecord "a", bareRecord "a"] ∧
        ∃ e, Json.decodeValue decoder bareTwice = .error e := by
  obtain ⟨_, _, joined, _, texts, values⟩ := after_represents bareHistory
  obtain ⟨t, added⟩ : ∃ t, (after bareHistory).add (bareRecord "c") = .ok t := ⟨_, rfl⟩
  have text : Json.decodeText (list RunRecord.decoder) "[]" = .ok [] := rfl
  have value : Json.decodeValue (list RunRecord.decoder) bareTwice =
      .ok [bareRecord "a", bareRecord "a"] := rfl
  refine ⟨rfl, ⟨t, added⟩, (joined _ t added [bareRecord "a"]).1, ⟨text, ?_⟩, value, ?_⟩
  · rw [texts _ _ text]
    simp
  · rw [values _ _ value]
    simp [bareRecord]

end Run

end GridSweep.ResultSet
