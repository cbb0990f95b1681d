import GridSweep.Proofs.Decode.Steady

/-!
What a record reads. Records of fields that read steadily read steadily themselves, from objects and from
arrays (`Record.Steady.reads`). From an object such a record reads just what its fields read under their
names (`Record.Steady.decoder_iff`, `Record.yields_field_iff`, `Record.yields_and_iff`).
-/
namespace GridSweep.Decode

variable {σ τ α β : Type}

def Field.Given (f : Field α) (c : Context) (l : List (String × Json)) (a : α) : Prop :=
  match Entries.find? f.key l with
  | some x => f.read c (.ofJson x) = pure a
  | none => f.absent = some a

theorem given_needed {key : String} {d : Decoder α} {c : Context} {l : List (String × Json)} {a : α} :
    (Field.needed key d).Given c l a ↔
      ∃ x, Entries.find? key l = some x ∧ d c (.ofJson x) = pure a := by
  unfold Field.Given Field.needed
  cases Entries.find? key l <;> simp

theorem given_free {key : String} {d : Decoder α} {c : Context} {l : List (String × Json)}
    {o : Option α} : (Field.free key d).Given c l o ↔
      Entries.find? key l = none ∧ o = none ∨
        ∃ x, Entries.find? key l = some x ∧ option d c (.ofJson x) = pure o := by
  unfold Field.Given Field.free Field.defaulted
  cases Entries.find? key l <;> simp [eq_comm]

namespace Record

variable {r : Record σ α} {s : Record τ β} {c : Context} {l : List (String × Json)}

/-- The fields of the record read steadily, from members and from items; the items that are left over
are trees of values again. -/
structure Steady (r : Record σ α) : Prop where
  put : ∀ c name x known, Decode.Steady (r.put c name (.ofJson x) known)
  take : ∀ c expected i (items : List Json),
    (∃ a k, ∃ rest : List Json,
      r.take c expected i (items.map .ofJson) = pure (a, k, rest.map .ofJson)) ∨
      ∃ cause, r.take c expected i (items.map .ofJson) = throw cause

theorem steady_field {f : Field α} (reads : Reads f.read) : (Record.field f).Steady where
  put c name x known := by
    simp only [Record.field]
    split
    · exact steady_throw _
    · exact (reads c x).map _
  take c expected i items := by
    cases items with
    | nil =>
      simp only [Record.field, List.map_nil]
      cases f.short with
      | none => exact .inr ⟨_, rfl⟩
      | some a => exact .inl ⟨a, i + 1, [], rfl⟩
    | cons x rest =>
      simp only [Record.field, List.map_cons]
      rcases reads c x with ⟨a, read⟩ | ⟨cause, read⟩
      · exact .inl ⟨a, i + 1, rest, by simp [read]⟩
      · exact .inr ⟨cause, by rw [read, throw_bind]⟩

theorem Steady.and (left : r.Steady) (right : s.Steady) : (r.and s).Steady where
  put c name x known := by
    simp only [Record.and]
    split
    · exact (left.put c name x _).bind fun _ => steady_pure _
    · exact (right.put c name x _).bind fun _ => steady_pure _
  take c expected i items := by
    simp only [Record.and]
    rcases left.take c expected i items with ⟨a, k, rest, taken⟩ | ⟨cause, taken⟩
    · rcases right.take c expected k rest with ⟨b, m, last, taken'⟩ | ⟨cause, taken'⟩
      · exact .inl ⟨(a, b), m, last, by simp [taken, taken']⟩
      · exact .inr ⟨cause, by simp only [taken, pure_bind, taken', throw_bind]⟩
    · exact .inr ⟨cause, by rw [taken, throw_bind]⟩

theorem Steady.map (steady : r.Steady) (f : α → β) : (r.map f).Steady where
  put := steady.put
  take c expected i items := by
    simp only [Record.map]
    rcases steady.take c expected i items with ⟨a, k, rest, taken⟩ | ⟨cause, taken⟩
    · exact .inl ⟨f a, k, rest, by simp [taken]⟩
    · exact .inr ⟨cause, by rw [taken, throw_bind]⟩

/-- The members are collected, or the reading fails at one of them. -/
theorem Steady.members (steady : r.Steady) (c : Context) (l : List (String × Json)) (known : σ) :
    (∃ last, r.Collects c l known last) ∨
      ∃ cause, r.members c (Node.ofMembers l) known = throw cause := by
  induction l generalizing known with
  | nil => exact .inl ⟨known, .nil known⟩
  | cons e rest ih =>
    obtain ⟨name, x⟩ := e
    by_cases own : name ∈ r.keys
    · rcases steady.put c name x known with ⟨next, put⟩ | ⟨cause, put⟩
      · rcases ih next with ⟨last, later⟩ | ⟨cause, failed⟩
        · exact .inl ⟨last, .own own put later⟩
        · refine .inr ⟨cause, ?_⟩
          simp only [Node.ofMembers, Record.members, fieldName_own own, pure_bind, put, failed]
      · refine .inr ⟨cause, ?_⟩
        simp only [Node.ofMembers, Record.members, fieldName_own own, pure_bind, put, throw_bind]
    · rcases ih known with ⟨last, later⟩ | ⟨cause, failed⟩
      · exact .inl ⟨last, .other own later⟩
      · refine .inr ⟨cause, ?_⟩
        simp only [Node.ofMembers, Record.members, fieldName_foreign own, skip_ofJson, pure_bind, failed]

theorem steady_finish (result : Except Failure α) : Decode.Steady (liftM result : Read α) := by
  cases result with
  | ok a => exact steady_pure a
  | error cause => exact steady_throw cause

theorem steady_surplus (c : Context) (used : Nat) (rest : List Node) :
    Decode.Steady (surplus c used rest) := by
  unfold surplus
  split
  · exact steady_pure _
  · split <;> exact steady_throw _

theorem Steady.ofMembers (steady : r.Steady) (c : Context) (l : List (String × Json)) :
    Decode.Steady (r.ofMembers c (Node.ofMembers l)) := by
  unfold Record.ofMembers
  rcases steady.members c l r.start with ⟨last, collected⟩ | ⟨cause, failed⟩
  · rw [collected.members, pure_bind]
    exact steady_finish _
  · rw [failed]
    exact steady_throw cause

theorem Steady.ofItems (steady : r.Steady) (expected : String) (c : Context) (items : List Json) :
    Decode.Steady (r.ofItems expected c (items.map .ofJson)) := by
  unfold Record.ofItems
  rcases steady.take c (expected ++ " with " ++ elements r.keys.length) 0 items with
    ⟨a, k, rest, taken⟩ | ⟨cause, failed⟩
  · simp only [taken, pure_bind]
    exact (steady_surplus _ _ _).bind fun _ => steady_pure a
  · simp only [failed]
    exact steady_throw cause

theorem Steady.reads (steady : r.Steady) (expected : String) : Reads (r.decoder expected) := by
  intro c x
  cases x with
  | arr items =>
    simp only [Node.ofJson, Node.ofItems_eq_map, Record.decoder, behind, Node.body]
    split
    · exact steady_throw _
    · exact (steady_enter c).bind fun inner => steady.ofItems expected inner items
  | obj l => exact (steady_enter c).bind fun inner => steady.ofMembers inner l
  | _ => exact steady_throw _

theorem Steady.decoder_iff (steady : r.Steady) (expected : String) (unlimited : c.limited = false)
    {a : α} : r.decoder expected c (.ofJson (.obj l)) = pure a ↔ r.Yields c l a := by
  constructor
  · intro read
    simp only [Node.ofJson, Record.decoder, behind, Node.body, Context.enter_of_unlimited unlimited,
      pure_bind, Record.ofMembers] at read
    rcases steady.members c l r.start with ⟨last, collected⟩ | ⟨cause, failed⟩
    · rw [collected.members, pure_bind] at read
      refine ⟨last, collected, ?_⟩
      cases finished : r.finish last with
      | ok b =>
        rw [finished] at read
        rw [pure_inj read]
      | error cause =>
        rw [finished] at read
        exact absurd read.symm pure_ne_throw
    · rw [failed] at read
      exact absurd read.symm pure_ne_throw
  · intro yields
    exact yields.decoder (Context.enter_of_unlimited unlimited) expected

theorem Collects.unique {known last last' : σ} (collected : r.Collects c l known last)
    (collected' : r.Collects c l known last') : last = last' :=
  pure_inj (collected.members.symm.trans collected'.members)

theorem Yields.unique {a b : α} (yields : r.Yields c l a) (yields' : r.Yields c l b) : a = b := by
  obtain ⟨last, collected, finished⟩ := yields
  obtain ⟨last', collected', finished'⟩ := yields'
  obtain rfl := collected.unique collected'
  exact Except.ok.inj (finished.symm.trans finished')

/-- Under distinct names a field reads what the member of its name gives, or what it has for its
absence. -/
theorem yields_field_iff {f : Field α} (reads : Reads f.read) (distinct : (l.map Prod.fst).Nodup)
    {a : α} : (Record.field f).Yields c l a ↔ f.Given c l a := by
  unfold Field.Given
  constructor
  · intro yields
    split
    · rename_i x found
      rcases reads c x with ⟨b, read⟩ | ⟨cause, failed⟩
      · rwa [yields.unique (.found distinct found read)]
      · have refuses : (Record.field f).Refuses c f.key x := .field (failed ▸ fails_throw cause)
        obtain ⟨last, collected, _⟩ := yields
        obtain ⟨cause, refused⟩ := refuses.members (Entries.mem_of_find? found) none 0
        have read : (Record.field f).members c (Node.ofMembers l) none = pure last :=
          collected.members
        rw [read] at refused
        cases refused
    · rename_i missing
      obtain ⟨last, collected, finished⟩ := yields
      obtain rfl := collected.unique
        (collects_foreign f c (Entries.find?_eq_none_iff.mp missing) none)
      cases absent : f.absent with
      | none => simp [Record.field, absent] at finished
      | some b => simpa [Record.field, absent] using finished
  · intro given
    split at given
    · rename_i x found
      exact .found distinct found given
    · rename_i missing
      exact .absent missing given

theorem Collects.parts (left : r.Steady) (right : s.Steady) (apart : ∀ key ∈ r.keys, key ∉ s.keys)
    {known last : σ × τ} (collected : (r.and s).Collects c l known last) :
    r.Collects c l known.1 last.1 ∧ s.Collects c l known.2 last.2 := by
  have both (key : String) : key ∈ (r.and s).keys ↔ key ∈ r.keys ∨ key ∈ s.keys :=
    List.mem_append
  induction collected with
  | nil known => exact ⟨.nil _, .nil _⟩
  | other foreign later ih =>
    rw [both, not_or] at foreign
    exact ⟨.other foreign.1 ih.1, .other foreign.2 ih.2⟩
  | @own name x rest known next last key put later ih =>
    simp only [Record.and, List.contains_eq_mem, decide_eq_true_eq] at put
    split at put
    · rename_i own
      obtain ⟨a, given, same⟩ := (left.put c name x _).bind_eq_pure put
      obtain rfl := pure_inj same
      exact ⟨.own own given ih.1, .other (apart _ own) ih.2⟩
    · rename_i foreign
      obtain ⟨b, given, same⟩ := (right.put c name x _).bind_eq_pure put
      obtain rfl := pure_inj same
      exact ⟨.other foreign ih.1, .own (((both _).mp key).resolve_left foreign) given ih.2⟩

/-- Two records side by side read what each of them reads. -/
theorem yields_and_iff (left : r.Steady) (right : s.Steady) (apart : ∀ key ∈ r.keys, key ∉ s.keys)
    {x : α × β} : (r.and s).Yields c l x ↔ r.Yields c l x.1 ∧ s.Yields c l x.2 := by
  constructor
  · rintro ⟨last, collected, finished⟩
    obtain ⟨first, second⟩ := collected.parts left right apart
    simp only [Record.and] at finished
    cases finished₁ : r.finish last.1 with
    | error cause => simp [finished₁, bind, Except.bind] at finished
    | ok a =>
      cases finished₂ : s.finish last.2 with
      | error cause => simp [finished₁, finished₂, bind, Except.bind] at finished
      | ok b =>
        rw [finished₁, finished₂] at finished
        obtain rfl := Except.ok.inj finished
        exact ⟨⟨_, first, finished₁⟩, _, second, finished₂⟩
  · rintro ⟨first, second⟩
    exact .and apart first second

theorem Collects.of_map {f : α → β} {known last : σ} (collected : (r.map f).Collects c l known last) :
    r.Collects c l known last := by
  induction collected with
  | nil known => exact .nil known
  | other foreign later ih => exact .other foreign ih
  | own key put later ih => exact .own key put ih

theorem yields_map_iff {f : α → β} {b : β} :
    (r.map f).Yields c l b ↔ ∃ a, r.Yields c l a ∧ f a = b := by
  constructor
  · rintro ⟨last, collected, finished⟩
    simp only [Record.map] at finished
    cases own : r.finish last with
    | error cause => simp [own, Except.map] at finished
    | ok a => exact ⟨a, ⟨last, collected.of_map, own⟩, by simpa [own, Except.map] using finished⟩
  · rintro ⟨a, yields, rfl⟩
    exact yields.map f

end Record

end GridSweep.Decode
