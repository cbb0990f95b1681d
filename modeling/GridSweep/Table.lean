/-!
Tables from names to values. A `Table` keeps the order in which names were first put; a `SortedTable`
keeps names in ascending order. In both a name stands once and the last value put under it counts.
-/
namespace GridSweep

namespace Entries

/-- Replaces the value of a name in place, or appends a new name. -/
def put {α : Type} (name : String) (value : α) : List (String × α) → List (String × α)
  | [] => [(name, value)]
  | e :: rest => if e.1 = name then (name, value) :: rest else e :: put name value rest

/-- Puts a name at its place in the ascending order, replacing its value if it is there. -/
def place {α : Type} (name : String) (value : α) : List (String × α) → List (String × α)
  | [] => [(name, value)]
  | e :: rest =>
    if name < e.1 then (name, value) :: e :: rest
    else if e.1 < name then e :: place name value rest
    else (name, value) :: rest

def find? {α : Type} (name : String) : List (String × α) → Option α
  | [] => none
  | e :: rest => if e.1 = name then some e.2 else find? name rest

theorem mem_keys_put {α : Type} {name x : String} {value : α} {l : List (String × α)} :
    x ∈ (put name value l).map Prod.fst ↔ x = name ∨ x ∈ l.map Prod.fst := by
  induction l with
  | nil => simp [put]
  | cons e rest ih =>
    by_cases h : e.1 = name
    · simp [put, h]
    · rw [put, if_neg h, List.map_cons, List.mem_cons, ih, List.map_cons, List.mem_cons]
      exact or_left_comm

theorem nodup_keys_put {α : Type} (name : String) (value : α) {l : List (String × α)}
    (h : (l.map Prod.fst).Nodup) : ((put name value l).map Prod.fst).Nodup := by
  induction l with
  | nil => simp [put]
  | cons e rest ih =>
    have hd := List.nodup_cons.1 h
    by_cases hn : e.1 = name
    · rw [put, if_pos hn]
      exact hn ▸ h
    · rw [put, if_neg hn, List.map_cons, List.nodup_cons, mem_keys_put]
      exact ⟨fun hm => hm.elim hn hd.1, ih hd.2⟩

theorem put_of_fresh {α : Type} {name : String} (value : α) {l : List (String × α)}
    (fresh : name ∉ l.map Prod.fst) : put name value l = l ++ [(name, value)] := by
  induction l with
  | nil => rfl
  | cons a rest ih =>
    rw [List.map_cons, List.mem_cons, not_or] at fresh
    rw [put, if_neg (Ne.symm fresh.1), ih fresh.2, List.cons_append]

theorem find?_eq_none_iff {α : Type} {name : String} {l : List (String × α)} :
    find? name l = none ↔ name ∉ l.map Prod.fst := by
  induction l with
  | nil => simp [find?]
  | cons a rest ih =>
    by_cases h : a.1 = name
    · simp [find?, h]
    · rw [find?, if_neg h, ih, List.map_cons, List.mem_cons, not_or]
      exact ⟨fun later => ⟨Ne.symm h, later⟩, fun both => both.2⟩

theorem mem_of_find? {α : Type} {name : String} {l : List (String × α)} {x : α} (h : find? name l = some x) :
    (name, x) ∈ l := by
  induction l with
  | nil => cases h
  | cons a rest ih =>
    by_cases hn : a.1 = name
    · rw [find?, if_pos hn] at h
      have same : a = (name, x) := Prod.ext hn (Option.some.inj h)
      exact same ▸ List.mem_cons_self
    · rw [find?, if_neg hn] at h
      exact List.mem_cons_of_mem _ (ih h)

theorem mem_place {α : Type} {name : String} {value : α} {l : List (String × α)}
    {e : String × α} (h : e ∈ place name value l) : e = (name, value) ∨ e ∈ l := by
  induction l with
  | nil => simpa [place] using h
  | cons a rest ih =>
    by_cases h₁ : name < a.1
    · simpa [place, h₁] using h
    · by_cases h₂ : a.1 < name
      · simp only [place, h₁, h₂, if_false, if_true, List.mem_cons] at h
        rcases h with h | h
        · exact .inr (h ▸ List.mem_cons_self)
        · exact (ih h).imp_right (List.mem_cons_of_mem _)
      · simp only [place, h₁, h₂, if_false, List.mem_cons] at h
        exact h.imp_right (List.mem_cons_of_mem _)

theorem ascending_place {α : Type} (name : String) (value : α) {l : List (String × α)}
    (h : l.Pairwise (·.1 < ·.1)) : (place name value l).Pairwise (·.1 < ·.1) := by
  induction l with
  | nil => simp [place]
  | cons a rest ih =>
    obtain ⟨first, later⟩ := List.pairwise_cons.1 h
    by_cases h₁ : name < a.1
    · rw [place, if_pos h₁]
      refine List.pairwise_cons.2 ⟨fun e he => ?_, h⟩
      rcases List.mem_cons.1 he with rfl | he
      · exact h₁
      · exact String.lt_trans h₁ (first e he)
    · by_cases h₂ : a.1 < name
      · rw [place, if_neg h₁, if_pos h₂]
        refine List.pairwise_cons.2 ⟨fun e he => ?_, ih later⟩
        rcases mem_place he with rfl | he
        · exact h₂
        · exact first e he
      · rw [place, if_neg h₁, if_neg h₂]
        have same : a.1 = name := String.le_antisymm h₁ h₂
        exact List.pairwise_cons.2 ⟨fun e he => same ▸ first e he, later⟩

end Entries

/-- Names with values, in the order in which the names were first put. -/
structure Table (α : Type) where
  entries : List (String × α)
  distinct : (entries.map Prod.fst).Nodup

namespace Table

variable {α : Type}

def empty : Table α := ⟨[], by simp⟩

instance : Inhabited (Table α) := ⟨empty⟩

def insert (t : Table α) (name : String) (value : α) : Table α :=
  ⟨Entries.put name value t.entries, Entries.nodup_keys_put name value t.distinct⟩

def ofList (l : List (String × α)) : Table α := l.foldl (fun t e => t.insert e.1 e.2) empty

def find? (t : Table α) (name : String) : Option α := Entries.find? name t.entries
def contains (t : Table α) (name : String) : Bool := (t.find? name).isSome
def names (t : Table α) : List String := t.entries.map Prod.fst
def values (t : Table α) : List α := t.entries.map Prod.snd
def size (t : Table α) : Nat := t.entries.length
def isEmpty (t : Table α) : Bool := t.entries.isEmpty

theorem contains_iff {t : Table α} {name : String} : t.contains name = true ↔ name ∈ t.names := by
  simp [contains, Option.isSome_iff_ne_none, find?, Entries.find?_eq_none_iff, names]

theorem insert_of_fresh {t : Table α} {name : String} (fresh : name ∉ t.names) (value : α) :
    (t.insert name value).entries = t.entries ++ [(name, value)] :=
  Entries.put_of_fresh value fresh

/-- The same names with values that agree, in any order. -/
def agrees (same : α → α → Bool) (s t : Table α) : Bool :=
  s.size == t.size && s.entries.all fun e => (t.find? e.1).any (same e.2)

end Table

/-- Names with values, in ascending order of the names. -/
structure SortedTable (α : Type) where
  entries : List (String × α)
  ascending : entries.Pairwise (·.1 < ·.1)
  deriving DecidableEq

namespace SortedTable

variable {α : Type}

def empty : SortedTable α := ⟨[], .nil⟩

instance : Inhabited (SortedTable α) := ⟨empty⟩

def insert (t : SortedTable α) (name : String) (value : α) : SortedTable α :=
  ⟨Entries.place name value t.entries, Entries.ascending_place name value t.ascending⟩

def ofList (l : List (String × α)) : SortedTable α := l.foldl (fun t e => t.insert e.1 e.2) empty

def find? (t : SortedTable α) (name : String) : Option α := Entries.find? name t.entries
def isEmpty (t : SortedTable α) : Bool := t.entries.isEmpty

end SortedTable

end GridSweep
