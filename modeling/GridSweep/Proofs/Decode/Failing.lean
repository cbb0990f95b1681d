import GridSweep.Proofs.Decode.Record

namespace GridSweep.Decode

variable {σ τ α β : Type}

/-- The reading fails, however many aliases may still be followed. -/
def Fails (m : Read α) : Prop := ∀ aliases, ∃ cause, m aliases = .error cause

theorem fails_throw (cause : Failure) : Fails (throw cause : Read α) := fun _ => ⟨cause, rfl⟩

theorem Fails.bind {m : Read α} (fails : Fails m) (f : α → Read β) : Fails (m >>= f) := by
  intro aliases
  obtain ⟨cause, failed⟩ := fails aliases
  refine ⟨cause, ?_⟩
  simp only [Bind.bind, StateT.bind, failed, Except.bind]

theorem Fails.after (m : Read α) {f : α → Read β} (fails : ∀ a, Fails (f a)) : Fails (m >>= f) := by
  intro aliases
  cases read : m aliases with
  | error cause =>
    refine ⟨cause, ?_⟩
    simp only [Bind.bind, StateT.bind, read, Except.bind]
  | ok r =>
    obtain ⟨cause, failed⟩ := fails r.1 r.2
    refine ⟨cause, ?_⟩
    simp only [Bind.bind, StateT.bind, read, Except.bind, failed]

theorem Fails.map {m : Read α} (fails : Fails m) (f : α → β) : Fails (f <$> m) := by
  rw [map_eq_pure_bind]
  exact fails.bind _

theorem Fails.decodeTree {d : Decoder α} {c : Context} {n : Node} (fails : Fails (d c n))
    (aliases : Nat) : ∃ cause, decodeTree d c aliases n = .error cause := by
  obtain ⟨cause, failed⟩ := fails aliases
  refine ⟨cause, ?_⟩
  rw [Decode.decodeTree, StateT.run']
  simp only [failed]
  rfl

section Parts

variable {d : Decoder α} {c inner : Context}

theorem fails_each {nodes : List Node} {n : Node} (mem : n ∈ nodes) (fails : Fails (d c n)) :
    Fails (each d c nodes) := by
  induction nodes with
  | nil => cases mem
  | cons first rest ih =>
    rw [each]
    rcases List.mem_cons.mp mem with rfl | later
    · exact fails.bind _
    · exact .after _ fun _ => (ih later).bind _

theorem fails_list {items : List Json} {x : Json} (entered : c.enter = pure inner) (mem : x ∈ items)
    (fails : Fails (d inner (.ofJson x))) : Fails (list d c (.ofJson (.arr items))) := by
  simp only [Node.ofJson, list, behind, Node.body, entered, pure_bind, Node.ofItems_eq_map]
  exact fails_each (List.mem_map_of_mem mem) fails

theorem fails_eachMember {nodes : List (Node × Node)} {e : Node × Node} (mem : e ∈ nodes)
    (fails : Fails (d c e.2)) : Fails (eachMember d c nodes) := by
  induction nodes with
  | nil => cases mem
  | cons first rest ih =>
    rw [eachMember]
    refine .after _ fun _ => ?_
    rcases List.mem_cons.mp mem with rfl | later
    · exact fails.bind _
    · exact .after _ fun _ => (ih later).bind _

theorem fails_entries {members : List (String × Json)} {e : String × Json}
    (entered : c.enter = pure inner) (mem : e ∈ members) (fails : Fails (d inner (.ofJson e.2))) :
    Fails (entries d c (.ofJson (.obj members))) := by
  simp only [Node.ofJson, entries, behind, Node.body, entered, pure_bind, Node.ofMembers_eq_map]
  exact fails_eachMember (List.mem_map_of_mem mem) fails

end Parts

namespace Record

variable {r : Record σ α} {s : Record τ β} {c inner : Context} {name : String} {x : Json}

/-- The record has a field of this name and cannot read the value under it. -/
structure Refuses (r : Record σ α) (c : Context) (name : String) (x : Json) : Prop where
  own : name ∈ r.keys
  fails : ∀ known, Fails (r.put c name (.ofJson x) known)

theorem Refuses.field {f : Field α} (fails : Fails (f.read c (.ofJson x))) :
    (Record.field f).Refuses c f.key x where
  own := List.mem_singleton_self _
  fails known := by
    unfold Record.field
    simp only
    split
    · exact fails_throw _
    · exact fails.map _

theorem Refuses.left (refuses : r.Refuses c name x) : (r.and s).Refuses c name x where
  own := List.mem_append_left _ refuses.own
  fails known := by
    have own : r.keys.contains name = true := List.contains_iff_mem.mpr refuses.own
    simp only [Record.and, own, if_true]
    exact (refuses.fails known.1).bind _

theorem Refuses.right (refuses : s.Refuses c name x) (foreign : name ∉ r.keys) :
    (r.and s).Refuses c name x where
  own := List.mem_append_right _ refuses.own
  fails known := by
    have other : r.keys.contains name = false := by simpa using foreign
    simp only [Record.and, other, Bool.false_eq_true, if_false]
    exact (refuses.fails known.2).bind _

theorem Refuses.map (refuses : r.Refuses c name x) (f : α → β) : (r.map f).Refuses c name x :=
  ⟨refuses.own, refuses.fails⟩

theorem Refuses.members (refuses : r.Refuses c name x) {l : List (String × Json)}
    (mem : (name, x) ∈ l) (known : σ) : Fails (r.members c (Node.ofMembers l) known) := by
  induction l generalizing known with
  | nil => cases mem
  | cons e rest ih =>
    obtain ⟨key, y⟩ := e
    rw [Node.ofMembers, Record.members]
    rcases List.mem_cons.mp mem with same | later
    · cases same
      rw [fieldName_own refuses.own, pure_bind]
      exact (refuses.fails known).bind _
    · by_cases own : key ∈ r.keys
      · rw [fieldName_own own, pure_bind]
        exact .after _ fun next => ih later next
      · rw [fieldName_foreign own, pure_bind]
        exact .after _ fun _ => ih later known

theorem Refuses.decoder (refuses : r.Refuses inner name x) (entered : c.enter = pure inner)
    {l : List (String × Json)} (mem : (name, x) ∈ l) (expected : String) :
    Fails (r.decoder expected c (.ofJson (.obj l))) := by
  simp only [Node.ofJson, Record.decoder, behind, Node.body, entered, pure_bind, ofMembers]
  exact (refuses.members mem _).bind _

end Record

end GridSweep.Decode
