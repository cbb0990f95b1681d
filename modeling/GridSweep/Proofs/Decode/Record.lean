import GridSweep.Decode.Record
import GridSweep.Proofs.Decode.Value

namespace GridSweep.Decode

variable {σ τ α β : Type}

theorem Context.enter_of_unlimited {c : Context} (h : c.limited = false) : c.enter = pure c := by
  rw [Context.enter, h]
  rfl

namespace Record

/-- Taking the members one after the other leads a record from one state of knowledge to another:
members of other names are passed over, its own are put. -/
inductive Collects (r : Record σ α) (c : Context) : List (String × Json) → σ → σ → Prop where
  | nil (known : σ) : Collects r c [] known known
  | other {name : String} {x : Json} {rest : List (String × Json)} {known last : σ}
      (foreign : name ∉ r.keys) (later : Collects r c rest known last) :
      Collects r c ((name, x) :: rest) known last
  | own {name : String} {x : Json} {rest : List (String × Json)} {known next last : σ}
      (key : name ∈ r.keys) (put : r.put c name (.ofJson x) known = pure next)
      (later : Collects r c rest next last) : Collects r c ((name, x) :: rest) known last

theorem skip_ofJson (x : Json) : skip (Node.ofJson x) = pure () := by
  cases x <;> rfl

theorem fieldName_foreign {keys : List String} {name : String} (h : name ∉ keys) (c : Context) :
    fieldName keys c (.str name) = pure none := by
  have absent : keys.find? (· == name) = none := by
    rw [List.find?_eq_none]
    intro key hkey same
    exact h (eq_of_beq same ▸ hkey)
  exact congrArg pure absent

theorem fieldName_own {keys : List String} {name : String} (h : name ∈ keys) (c : Context) :
    fieldName keys c (.str name) = pure (some name) := by
  have found : keys.find? (· == name) = some name := by
    cases look : keys.find? (· == name) with
    | none => exact absurd (beq_self_eq_true name) (List.find?_eq_none.mp look name h)
    | some key => exact congrArg some (eq_of_beq (List.find?_some (p := (· == name)) look))
  exact congrArg pure found

theorem Collects.members {r : Record σ α} {c : Context} {l : List (String × Json)}
    {known last : σ} (h : r.Collects c l known last) :
    r.members c (Node.ofMembers l) known = pure last := by
  induction h with
  | nil known => rfl
  | other foreign later ih =>
    rw [Node.ofMembers, Record.members, fieldName_foreign foreign, pure_bind]
    simp only [skip_ofJson, pure_bind, ih]
  | own key put later ih =>
    rw [Node.ofMembers, Record.members, fieldName_own key, pure_bind]
    simp only [put, pure_bind, ih]

theorem Collects.and {r : Record σ α} {s : Record τ β} {c : Context}
    {l : List (String × Json)} {a a' : σ} {b b' : τ} (apart : ∀ key ∈ r.keys, key ∉ s.keys)
    (left : r.Collects c l a a') (right : s.Collects c l b b') :
    (r.and s).Collects c l (a, b) (a', b') := by
  have both (key : String) : key ∈ (r.and s).keys ↔ key ∈ r.keys ∨ key ∈ s.keys :=
    List.mem_append
  induction left generalizing b with
  | nil known =>
    cases right
    exact .nil _
  | other foreign later ih =>
    cases right with
    | other foreign' later' =>
      exact .other (fun key => ((both _).mp key).elim foreign foreign') (ih later')
    | own key put later' =>
      refine .own ((both _).mpr (.inr key)) ?_ (ih later')
      simp only [Record.and, List.contains_eq_mem, foreign, decide_false, Bool.false_eq_true,
        if_false, put, pure_bind]
  | own key put later ih =>
    cases right with
    | other foreign' later' =>
      refine .own ((both _).mpr (.inl key)) ?_ (ih later')
      simp only [Record.and, List.contains_eq_mem, key, decide_true, if_true, put, pure_bind]
    | own key' put' later' => exact absurd key' (apart _ key)

theorem Collects.map {r : Record σ α} (f : α → β) {c : Context} {l : List (String × Json)}
    {known last : σ} (h : r.Collects c l known last) : (r.map f).Collects c l known last := by
  induction h with
  | nil known => exact .nil known
  | other foreign later ih => exact .other foreign ih
  | own key put later ih => exact .own key put ih

/-- The members of an object make up a value of the record. -/
def Yields (r : Record σ α) (c : Context) (l : List (String × Json)) (a : α) : Prop :=
  ∃ known, r.Collects c l r.start known ∧ r.finish known = .ok a

theorem collects_foreign (f : Field α) (c : Context) {l : List (String × Json)}
    (missing : f.key ∉ l.map Prod.fst) (known : Option α) :
    (Record.field f).Collects c l known known := by
  induction l with
  | nil => exact .nil known
  | cons e rest ih =>
    rw [List.map_cons, List.mem_cons] at missing
    refine .other ?_ (ih fun later => missing (.inr later))
    exact fun same => missing (.inl (List.mem_singleton.mp same).symm)

theorem Yields.found {f : Field α} {c : Context} {l : List (String × Json)} {x : Json} {a : α}
    (distinct : (l.map Prod.fst).Nodup) (found : Entries.find? f.key l = some x)
    (read : f.read c (.ofJson x) = pure a) : (Record.field f).Yields c l a := by
  refine ⟨some a, ?_, rfl⟩
  show (Record.field f).Collects c l none (some a)
  induction l with
  | nil => cases found
  | cons e rest ih =>
    obtain ⟨name, y⟩ := e
    rw [List.map_cons, List.nodup_cons] at distinct
    rw [Entries.find?] at found
    split at found
    · rename_i same
      obtain rfl : y = x := Option.some.inj found
      obtain rfl : name = f.key := same
      refine .own List.mem_cons_self ?_ (collects_foreign f c distinct.1 (some a))
      simp [Record.field, read]
    · rename_i other
      exact .other (fun key => other (List.mem_singleton.mp key)) (ih distinct.2 found)

/-- A field that may be left out takes its value for that when its name is not among the members. -/
theorem Yields.absent {f : Field α} {c : Context} {l : List (String × Json)} {a : α}
    (missing : Entries.find? f.key l = none) (absent : f.absent = some a) :
    (Record.field f).Yields c l a := by
  refine ⟨none, collects_foreign f c (Entries.find?_eq_none_iff.mp missing) none, ?_⟩
  simp only [Record.field, absent]
  rfl

theorem Yields.and {r : Record σ α} {s : Record τ β} {c : Context} {l : List (String × Json)}
    {a : α} {b : β} (apart : ∀ key ∈ r.keys, key ∉ s.keys) (left : r.Yields c l a)
    (right : s.Yields c l b) : (r.and s).Yields c l (a, b) := by
  obtain ⟨known, collected, finished⟩ := left
  obtain ⟨known', collected', finished'⟩ := right
  refine ⟨(known, known'), collected.and apart collected', ?_⟩
  simp only [Record.and, finished, finished']
  rfl

theorem Yields.map {r : Record σ α} {c : Context} {l : List (String × Json)} {a : α} (f : α → β)
    (h : r.Yields c l a) : (r.map f).Yields c l (f a) := by
  obtain ⟨known, collected, finished⟩ := h
  refine ⟨known, collected.map f, ?_⟩
  simp only [Record.map, finished]
  rfl

theorem Yields.decoder {r : Record σ α} {c inner : Context} {l : List (String × Json)} {a : α}
    (h : r.Yields inner l a) (entered : c.enter = pure inner) (expected : String) :
    r.decoder expected c (.ofJson (.obj l)) = pure a := by
  obtain ⟨known, collected, finished⟩ := h
  simp only [Node.ofJson, Record.decoder, behind, Node.body, entered, pure_bind, ofMembers,
    collected.members, finished]
  rfl

end Record

variable {ι : Type}

theorem each_ofItems {d : Decoder α} {c : Context} (encode : ι → Json) (result : ι → α)
    {l : List ι} (reads : ∀ x ∈ l, d c (.ofJson (encode x)) = pure (result x)) :
    each d c (Node.ofItems (l.map encode)) = pure (l.map result) := by
  induction l with
  | nil => rfl
  | cons x rest ih =>
    rw [List.map_cons, Node.ofItems, each, reads x List.mem_cons_self,
      ih fun y hy => reads y (List.mem_cons_of_mem _ hy)]
    rfl

theorem list_ofJson {d : Decoder α} {c inner : Context} (encode : ι → Json) (result : ι → α)
    {l : List ι} (entered : c.enter = pure inner)
    (reads : ∀ x ∈ l, d inner (.ofJson (encode x)) = pure (result x)) :
    list d c (.ofJson (.arr (l.map encode))) = pure (l.map result) := by
  simp only [Node.ofJson, list, behind, Node.body, entered, pure_bind,
    each_ofItems encode result reads]

theorem eachMember_ofMembers {d : Decoder α} {c : Context} (encode : ι → Json) (result : ι → α)
    {l : List (String × ι)} (reads : ∀ e ∈ l, d c (.ofJson (encode e.2)) = pure (result e.2)) :
    eachMember d c (Node.ofMembers (Entries.mapValues encode l)) =
      pure (Entries.mapValues result l) := by
  induction l with
  | nil => rfl
  | cons e rest ih =>
    have later := ih fun g hg => reads g (List.mem_cons_of_mem _ hg)
    rw [Entries.mapValues] at later
    rw [Entries.mapValues, List.map_cons, Node.ofMembers, eachMember,
      reads e List.mem_cons_self, later]
    rfl

theorem entries_ofJson {d : Decoder α} {c inner : Context} (encode : ι → Json) (result : ι → α)
    {l : List (String × ι)} (entered : c.enter = pure inner)
    (reads : ∀ e ∈ l, d inner (.ofJson (encode e.2)) = pure (result e.2)) :
    entries d c (.ofJson (.obj (Entries.mapValues encode l))) =
      pure (Entries.mapValues result l) := by
  simp only [Node.ofJson, entries, behind, Node.body, entered, pure_bind,
    eachMember_ofMembers encode result reads]

end GridSweep.Decode
