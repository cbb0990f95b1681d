import GridSweep.Decode.Node
import GridSweep.Proofs.Number.Written
import GridSweep.Proofs.Table

namespace GridSweep

namespace Json

/-- Induction on values: a property of the parts of every array and object passes to the whole. -/
@[elab_as_elim]
theorem tree_induction {motive : Json → Prop} (null : motive null) (bool : ∀ b, motive (bool b))
    (num : ∀ n, motive (num n)) (str : ∀ s, motive (str s))
    (arr : ∀ items : List Json, (∀ x ∈ items, motive x) → motive (arr items))
    (obj : ∀ members : List (String × Json), (∀ e ∈ members, motive e.2) → motive (obj members))
    (j : Json) : motive j := by
  refine @Json.rec motive (fun items => ∀ x ∈ items, motive x)
    (fun members => ∀ e ∈ members, motive e.2) (fun e => motive e.2)
    null bool num str arr obj ?_ ?_ ?_ ?_ ?_ j
  · intro x hx
    cases hx
  · intro first rest hfirst hrest x hx
    rcases List.mem_cons.mp hx with rfl | later
    · exact hfirst
    · exact hrest x later
  · intro e he
    cases he
  · intro first rest hfirst hrest e he
    rcases List.mem_cons.mp he with rfl | later
    · exact hfirst
    · exact hrest e later
  · intro name x hx
    exact hx

theorem normalItems_eq_map (items : List Json) : normalItems items = items.map normal := by
  induction items with
  | nil => rfl
  | cons x rest ih => rw [normalItems, ih, List.map_cons]

theorem normalMembers_eq_mapValues (members : List (String × Json)) :
    normalMembers members = Entries.mapValues normal members := by
  induction members with
  | nil => rfl
  | cons e rest ih =>
    obtain ⟨name, x⟩ := e
    rw [normalMembers, ih]
    rfl

theorem nodup_normalMembers (members : List (String × Json)) :
    ((sorted (normalMembers members)).map Prod.fst).Nodup :=
  Entries.nodup_keys_of_ascending (SortedTable.ofList _).ascending

theorem perm_normalMembers {members : List (String × Json)} (names : (members.map Prod.fst).Nodup) :
    (sorted (normalMembers members)).Perm (Entries.mapValues normal members) := by
  rw [normalMembers_eq_mapValues]
  apply SortedTable.perm_ofList
  rwa [Entries.keys_mapValues]

/-- Of members with one name the last one is in the normal form. -/
theorem find?_normalMembers_eq (members : List (String × Json)) (name : String) :
    Entries.find? name (sorted (normalMembers members)) =
      ((obj members).member? name).map normal := by
  have turned : (Entries.mapValues normal members).reverse =
      Entries.mapValues normal members.reverse := List.map_reverse.symm
  rw [normalMembers_eq_mapValues, sorted, SortedTable.find?_ofList, turned,
    Entries.find?_mapValues]
  rfl

theorem find?_normalMembers {members : List (String × Json)}
    (distinct : (members.map Prod.fst).Nodup) (name : String) :
    Entries.find? name (sorted (normalMembers members)) =
      (Entries.find? name members).map normal := by
  rw [find?_normalMembers_eq, member?, Entries.find?_reverse distinct]

theorem member?_normal {j : Json} {name : String} :
    j.normal.member? name = (j.member? name).map normal := by
  cases j with
  | obj members =>
    rw [← find?_normalMembers_eq]
    exact Entries.find?_reverse (nodup_normalMembers members) name
  | _ => rfl

mutual

def depth : Json → Nat
  | arr items => itemsDepth items + 1
  | obj members => membersDepth members + 1
  | _ => 0

def itemsDepth : List Json → Nat
  | [] => 0
  | x :: rest => max (depth x) (itemsDepth rest)

def membersDepth : List (String × Json) → Nat
  | [] => 0
  | (_, x) :: rest => max (depth x) (membersDepth rest)

end

theorem depth_le_itemsDepth {items : List Json} {x : Json} (h : x ∈ items) :
    depth x ≤ itemsDepth items := by
  induction items with
  | nil => cases h
  | cons first rest ih =>
    rw [itemsDepth]
    rcases List.mem_cons.mp h with rfl | later
    · exact Nat.le_max_left _ _
    · exact Nat.le_trans (ih later) (Nat.le_max_right _ _)

theorem depth_le_membersDepth {members : List (String × Json)} {e : String × Json}
    (h : e ∈ members) : depth e.2 ≤ membersDepth members := by
  induction members with
  | nil => cases h
  | cons first rest ih =>
    obtain ⟨name, x⟩ := first
    rw [membersDepth]
    rcases List.mem_cons.mp h with rfl | later
    · exact Nat.le_max_left _ _
    · exact Nat.le_trans (ih later) (Nat.le_max_right _ _)

theorem itemsDepth_le {items : List Json} {n : Nat} (h : ∀ x ∈ items, depth x ≤ n) :
    itemsDepth items ≤ n := by
  induction items with
  | nil => exact Nat.zero_le n
  | cons x rest ih =>
    rw [itemsDepth]
    exact Nat.max_le.mpr
      ⟨h x List.mem_cons_self, ih fun y hy => h y (List.mem_cons_of_mem _ hy)⟩

theorem membersDepth_le {members : List (String × Json)} {n : Nat}
    (h : ∀ e ∈ members, depth e.2 ≤ n) : membersDepth members ≤ n := by
  induction members with
  | nil => exact Nat.zero_le n
  | cons e rest ih =>
    obtain ⟨name, x⟩ := e
    rw [membersDepth]
    exact Nat.max_le.mpr
      ⟨h (name, x) List.mem_cons_self, ih fun f hf => h f (List.mem_cons_of_mem _ hf)⟩

mutual

def numbers : Json → List Number
  | num n => [n]
  | arr items => itemNumbers items
  | obj members => memberNumbers members
  | _ => []

def itemNumbers : List Json → List Number
  | [] => []
  | x :: rest => numbers x ++ itemNumbers rest

def memberNumbers : List (String × Json) → List Number
  | [] => []
  | (_, x) :: rest => numbers x ++ memberNumbers rest

end

theorem mem_itemNumbers {items : List Json} {n : Number} :
    n ∈ itemNumbers items ↔ ∃ x ∈ items, n ∈ numbers x := by
  induction items with
  | nil => simp [itemNumbers]
  | cons x rest ih => simp [itemNumbers, ih]

theorem mem_memberNumbers {members : List (String × Json)} {n : Number} :
    n ∈ memberNumbers members ↔ ∃ e ∈ members, n ∈ numbers e.2 := by
  induction members with
  | nil => simp [memberNumbers]
  | cons e rest ih =>
    obtain ⟨name, x⟩ := e
    simp only [memberNumbers, List.mem_append, ih, List.mem_cons, or_and_right, exists_or,
      exists_eq_left]

end Json

/-- A number that JSON libraries hold: an integer of 64 bits or a finite floating-point number. -/
def Number.Held : Number → Prop
  | .int i => Fits i
  | .float x => x.isFinite = true

/-- A value that a JSON library holds: the members of its objects ascending, its numbers held. -/
structure Json.Held (j : Json) : Prop where
  normal : j.normal = j
  numbers : ∀ n ∈ j.numbers, n.Held

theorem Json.held_num {n : Number} (held : n.Held) : (Json.num n).Held where
  normal := rfl
  numbers m hm := by
    obtain rfl := List.mem_singleton.mp hm
    exact held

namespace Double

theorem not_isNaN {x : Double} (finite : x.isFinite = true) : x.isNaN = false := by
  rw [isFinite, bne_iff_ne] at finite
  rw [isNaN, beq_eq_false_iff_ne.mpr finite, Bool.false_and]

theorem same_refl {x : Double} (finite : x.isFinite = true) : x.same x = true := by
  rw [same, not_isNaN finite, beq_self_eq_true]
  rfl

end Double

theorem Number.Held.same_refl {n : Number} (held : n.Held) : n.same n = true := by
  cases n with
  | int i => exact beq_self_eq_true i
  | float x => exact Double.same_refl held

theorem Json.same_refl (j : Json) (numbers : ∀ n ∈ j.numbers, n.Held) : j.same j = true := by
  induction j using tree_induction with
  | null => rfl
  | bool b => exact beq_self_eq_true b
  | num n => exact (numbers n List.mem_cons_self).same_refl
  | str s => exact beq_self_eq_true s
  | arr items ih =>
    have each : ∀ l : List Json, (∀ x ∈ l, x.same x = true) → sameItems l l = true := by
      intro l equal
      induction l with
      | nil => rfl
      | cons x rest ihl =>
        rw [sameItems, equal x List.mem_cons_self, Bool.true_and]
        exact ihl fun y hy => equal y (List.mem_cons_of_mem _ hy)
    exact each items fun x hx =>
      ih x hx fun n hn => numbers n (mem_itemNumbers.mpr ⟨x, hx, hn⟩)
  | obj members ih =>
    have each : ∀ l : List (String × Json), (∀ e ∈ l, e.2.same e.2 = true) →
        sameMembers l l = true := by
      intro l equal
      induction l with
      | nil => rfl
      | cons e rest ihl =>
        obtain ⟨name, x⟩ := e
        rw [sameMembers, beq_self_eq_true, equal (name, x) List.mem_cons_self, Bool.true_and]
        exact ihl fun f hf => equal f (List.mem_cons_of_mem _ hf)
    exact each members fun e he =>
      ih e he fun n hn => numbers n (mem_memberNumbers.mpr ⟨e, he, hn⟩)

namespace Json

theorem normal_ofDouble (x : Double) : (ofDouble x).normal = ofDouble x := by
  unfold ofDouble
  split <;> rfl

theorem held_ofDouble {x : Double} {n : Number} (h : n ∈ (ofDouble x).numbers) : n.Held := by
  unfold ofDouble at h
  split at h
  · rename_i finite
    obtain rfl := List.mem_singleton.mp h
    exact finite
  · cases h

theorem eq_of_mem_ofDouble {x y : Double} (h : Number.float y ∈ (ofDouble x).numbers) : y = x := by
  unfold ofDouble at h
  split at h
  · exact Number.float.inj (List.mem_singleton.mp h)
  · cases h

theorem depth_ofDouble (x : Double) : (ofDouble x).depth = 0 := by
  unfold ofDouble
  split <;> rfl

end Json

namespace Decode.Node

theorem ofItems_eq_map (items : List Json) : ofItems items = items.map ofJson := by
  induction items with
  | nil => rfl
  | cons x rest ih => rw [ofItems, ih, List.map_cons]

theorem ofMembers_eq_map (members : List (String × Json)) :
    ofMembers members = members.map fun e => (str e.1, ofJson e.2) := by
  induction members with
  | nil => rfl
  | cons e rest ih =>
    obtain ⟨name, x⟩ := e
    rw [ofMembers, ih, List.map_cons]

end Decode.Node

end GridSweep
