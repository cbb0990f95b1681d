import GridSweep.Table
import Mathlib.Data.List.Nodup
import Mathlib.Data.List.Perm.Subperm

namespace GridSweep

namespace Entries

variable {α β : Type}

def mapValues (f : α → β) (l : List (String × α)) : List (String × β) := l.map fun e => (e.1, f e.2)

theorem keys_mapValues (f : α → β) (l : List (String × α)) :
    (mapValues f l).map Prod.fst = l.map Prod.fst := by
  simp [mapValues, Function.comp_def]

theorem mem_put {name : String} {value : α} {l : List (String × α)} {e : String × α}
    (h : e ∈ put name value l) : e = (name, value) ∨ e ∈ l := by
  induction l with
  | nil => simpa [put] using h
  | cons a rest ih =>
    by_cases hn : a.1 = name
    · rw [put, if_pos hn] at h
      rcases List.mem_cons.mp h with h | h
      · exact .inl h
      · exact .inr (List.mem_cons_of_mem _ h)
    · rw [put, if_neg hn] at h
      rcases List.mem_cons.mp h with h | h
      · exact .inr (h ▸ List.mem_cons_self)
      · exact (ih h).imp_right (List.mem_cons_of_mem _)

theorem keys_put (name : String) (value : α) (l : List (String × α)) :
    (put name value l).map Prod.fst =
      if name ∈ l.map Prod.fst then l.map Prod.fst else l.map Prod.fst ++ [name] := by
  induction l with
  | nil => rfl
  | cons a rest ih =>
    by_cases here : a.1 = name
    · simp [put, here]
    · have there : name ∈ (a :: rest).map Prod.fst ↔ name ∈ rest.map Prod.fst := by
        simp [Ne.symm here]
      rw [put, if_neg here, List.map_cons, ih, List.map_cons]
      simp only [← List.map_cons, there]
      split <;> rfl

theorem find?_put (name other : String) (value : α) (l : List (String × α)) :
    find? other (put name value l) = if name = other then some value else find? other l := by
  induction l with
  | nil => rfl
  | cons a rest ih =>
    by_cases here : a.1 = name
    · rw [put, if_pos here, find?, find?, here]
      split <;> rfl
    · rw [put, if_neg here, find?, find?, ih]
      by_cases found : a.1 = other
      · have apart : name ≠ other := fun same => here (found.trans same.symm)
        rw [if_pos found, if_neg apart, if_pos found]
      · rw [if_neg found, if_neg found]

@[simp] theorem find?_nil (name : String) : find? name ([] : List (String × α)) = none := rfl

theorem find?_append (name : String) (l m : List (String × α)) :
    find? name (l ++ m) = (find? name l).or (find? name m) := by
  induction l with
  | nil => simp
  | cons a rest ih =>
    by_cases h : a.1 = name
    · simp [find?, h]
    · simp [find?, h, ih]

theorem find?_mapValues (f : α → β) (name : String) (l : List (String × α)) :
    find? name (mapValues f l) = (find? name l).map f := by
  induction l with
  | nil => rfl
  | cons a rest ih =>
    by_cases h : a.1 = name
    · simp [mapValues, find?, h]
    · simpa [mapValues, find?, h] using ih

theorem find?_of_mem {name : String} {l : List (String × α)} {x : α}
    (distinct : (l.map Prod.fst).Nodup) (h : (name, x) ∈ l) : find? name l = some x := by
  induction l with
  | nil => cases h
  | cons a rest ih =>
    obtain ⟨first, later⟩ := List.nodup_cons.mp distinct
    rcases List.mem_cons.mp h with rfl | h
    · simp [find?]
    · have other : a.1 ≠ name := fun same => first (same ▸ List.mem_map_of_mem h)
      rw [find?, if_neg other, ih later h]

theorem eq_of_find? {l m : List (String × α)} (keys : l.map Prod.fst = m.map Prod.fst)
    (distinct : (l.map Prod.fst).Nodup) (h : ∀ name, find? name l = find? name m) : l = m := by
  induction l generalizing m with
  | nil => exact (List.map_eq_nil_iff.mp keys.symm).symm
  | cons a rest ih =>
    cases m with
    | nil => cases keys
    | cons b others =>
      obtain ⟨first, later⟩ := List.cons.inj keys
      obtain ⟨fresh, distinct'⟩ := List.nodup_cons.mp distinct
      have head : a = b := Prod.ext first (by simpa [find?, first] using h a.1)
      have tail : rest = others := by
        apply ih later distinct'
        intro name
        by_cases same : a.1 = name
        · have absent : name ∉ rest.map Prod.fst := same ▸ fresh
          rw [find?_eq_none_iff.mpr absent, find?_eq_none_iff.mpr (later ▸ absent)]
        · simpa [find?, ← head, same] using h name
      rw [head, tail]

theorem find?_reverse {l : List (String × α)} (distinct : (l.map Prod.fst).Nodup) (name : String) :
    find? name l.reverse = find? name l := by
  cases h : find? name l with
  | none =>
    rw [find?_eq_none_iff, List.map_reverse, List.mem_reverse]
    exact find?_eq_none_iff.mp h
  | some x =>
    refine find?_of_mem ?_ (List.mem_reverse.mpr (mem_of_find? h))
    rw [List.map_reverse]
    exact (List.reverse_perm _).nodup_iff.mpr distinct

theorem find?_place (name other : String) (value : α) (l : List (String × α)) :
    find? other (place name value l) = if name = other then some value else find? other l := by
  induction l with
  | nil => rfl
  | cons a rest ih =>
    by_cases h₁ : name < a.1
    · rw [place, if_pos h₁, find?]
    · by_cases h₂ : a.1 < name
      · rw [place, if_neg h₁, if_pos h₂, find?, find?, ih]
        by_cases ha : a.1 = other
        · have apart : name ≠ other := fun same => by
            rw [same, ha] at h₂
            exact String.lt_irrefl _ h₂
          rw [if_pos ha, if_neg apart, if_pos ha]
        · rw [if_neg ha, if_neg ha]
      · have same : a.1 = name := String.le_antisymm h₁ h₂
        rw [place, if_neg h₁, if_neg h₂, find?, find?, same]
        by_cases hn : name = other
        · rw [if_pos hn, if_pos hn]
        · rw [if_neg hn, if_neg hn, if_neg hn]

theorem place_perm_of_fresh {name : String} (value : α) {l : List (String × α)}
    (fresh : name ∉ l.map Prod.fst) : (place name value l).Perm ((name, value) :: l) := by
  induction l with
  | nil => exact .refl _
  | cons a rest ih =>
    rw [List.map_cons, List.mem_cons, not_or] at fresh
    by_cases h₁ : name < a.1
    · rw [place, if_pos h₁]
    · by_cases h₂ : a.1 < name
      · rw [place, if_neg h₁, if_pos h₂]
        exact ((ih fresh.2).cons a).trans (.swap _ _ _)
      · exact absurd (String.le_antisymm h₂ h₁) fresh.1

theorem place_of_above {name : String} (value : α) {l : List (String × α)}
    (above : ∀ e ∈ l, e.1 < name) : place name value l = l ++ [(name, value)] := by
  induction l with
  | nil => rfl
  | cons a rest ih =>
    have low : a.1 < name := above a List.mem_cons_self
    have notHigh : ¬ name < a.1 := fun high => String.lt_irrefl _ (String.lt_trans low high)
    rw [place, if_neg notHigh, if_pos low, List.cons_append,
      ih fun e he => above e (List.mem_cons_of_mem _ he)]

theorem nodup_keys_of_ascending {l : List (String × α)} (ascending : l.Pairwise (·.1 < ·.1)) :
    (l.map Prod.fst).Nodup := by
  refine List.pairwise_map.mpr (ascending.imp fun {a b} less same => ?_)
  rw [same] at less
  exact String.lt_irrefl _ less

theorem perm_of_find? {l m : List (String × α)} (hl : (l.map Prod.fst).Nodup)
    (hm : (m.map Prod.fst).Nodup) (same : ∀ name, find? name l = find? name m) : l.Perm m := by
  have members {l m : List (String × α)} (hl : (l.map Prod.fst).Nodup)
      (same : ∀ name, find? name l = find? name m) {e : String × α} (he : e ∈ l) : e ∈ m :=
    mem_of_find? ((same e.1).symm.trans (find?_of_mem hl he))
  have distinct {l : List (String × α)} (hl : (l.map Prod.fst).Nodup) : l.Nodup :=
    List.Pairwise.of_map Prod.fst (fun _ _ apart same => apart (congrArg Prod.fst same)) hl
  exact (List.perm_ext_iff_of_nodup (distinct hl) (distinct hm)).mpr fun e =>
    ⟨members hl same, members hm fun name => (same name).symm⟩

theorem ext_of_ascending {l m : List (String × α)} (hl : l.Pairwise (·.1 < ·.1))
    (hm : m.Pairwise (·.1 < ·.1)) (same : ∀ name, find? name l = find? name m) : l = m := by
  have perm := perm_of_find? (nodup_keys_of_ascending hl) (nodup_keys_of_ascending hm) same
  exact perm.eq_of_pairwise (fun a b _ _ hab hba =>
    absurd (String.lt_trans hab hba) (String.lt_irrefl _)) hl hm

theorem find?_filter (keep : α → Bool) {l : List (String × α)} (distinct : (l.map Prod.fst).Nodup)
    (name : String) : find? name (l.filter fun e => keep e.2) = (find? name l).filter keep := by
  induction l with
  | nil => rfl
  | cons a rest ih =>
    obtain ⟨first, later⟩ := List.nodup_cons.mp distinct
    by_cases same : a.1 = name
    · have gone : find? name (rest.filter fun e => keep e.2) = none := by
        rw [ih later, find?_eq_none_iff.mpr (same ▸ first)]
        rfl
      cases kept : keep a.2 with
      | true => simp [find?, same, kept, Option.filter]
      | false => simp [find?, same, kept, Option.filter, gone]
    · cases kept : keep a.2 with
      | true => simp [find?, same, kept, ih later]
      | false => simp [find?, same, kept, ih later]

theorem filter_eq_find? {l : List (String × α)} (distinct : (l.map Prod.fst).Nodup) (name : String) :
    l.filter (·.1 = name) = (find? name l).toList.map (name, ·) := by
  induction l with
  | nil => rfl
  | cons a rest ih =>
    obtain ⟨first, later⟩ := List.nodup_cons.mp distinct
    by_cases same : a.1 = name
    · have gone : find? name rest = none := find?_eq_none_iff.mpr (same ▸ first)
      rw [List.filter_cons, if_pos (decide_eq_true same), ih later, gone, find?, if_pos same, ← same]
      rfl
    · have differs : ¬ decide (a.1 = name) = true := fun equal => same (of_decide_eq_true equal)
      rw [List.filter_cons, if_neg differs, ih later, find?, if_neg same]

/-- Of a list put together from pieces that tell the names they belong to, one name has its pieces. -/
theorem filter_flatMap {f : String × α → List β} {tag : β → String}
    (tagged : ∀ a, ∀ x ∈ f a, tag x = a.1) (l : List (String × α)) (name : String) :
    (l.flatMap f).filter (tag · = name) = (l.filter (·.1 = name)).flatMap f := by
  induction l with
  | nil => rfl
  | cons a rest ih =>
    rw [List.flatMap_cons, List.filter_append, ih]
    by_cases same : a.1 = name
    · have own : (f a).filter (tag · = name) = f a :=
        List.filter_eq_self.mpr fun x hx => decide_eq_true ((tagged a x hx).trans same)
      rw [own, List.filter_cons, if_pos (decide_eq_true same), List.flatMap_cons]
    · have none : (f a).filter (tag · = name) = [] :=
        List.filter_eq_nil_iff.mpr fun x hx equal =>
          same ((tagged a x hx).symm.trans (of_decide_eq_true equal))
      have differs : ¬ decide (a.1 = name) = true := fun equal => same (of_decide_eq_true equal)
      rw [none, List.filter_cons, if_neg differs, List.nil_append]

end Entries

namespace Table

variable {α : Type}

theorem foldl_insert_entries (l : List (String × α)) (t : Table α)
    (distinct : ((t.entries ++ l).map Prod.fst).Nodup) :
    (l.foldl (fun t e => t.insert e.1 e.2) t).entries = t.entries ++ l := by
  induction l generalizing t with
  | nil => simp
  | cons e rest ih =>
    have fresh : e.1 ∉ t.entries.map Prod.fst := by
      rw [List.map_append, List.nodup_append] at distinct
      exact fun known => distinct.2.2 _ known _ (by simp) rfl
    have grown : (t.insert e.1 e.2).entries = t.entries ++ [e] := Entries.put_of_fresh _ fresh
    rw [List.foldl_cons, ih _ (by rwa [grown, List.append_assoc]), grown, List.append_assoc]
    rfl

theorem entries_ofList {l : List (String × α)} (distinct : (l.map Prod.fst).Nodup) :
    (ofList l).entries = l :=
  foldl_insert_entries l empty distinct

theorem find?_insert (t : Table α) (name other : String) (value : α) :
    (t.insert name value).find? other = if name = other then some value else t.find? other :=
  Entries.find?_put name other value t.entries

theorem names_insert (t : Table α) (name : String) (value : α) :
    (t.insert name value).names = if name ∈ t.names then t.names else t.names ++ [name] :=
  Entries.keys_put name value t.entries

theorem ext {s t : Table α} (h : s.entries = t.entries) : s = t := by
  cases s
  cases t
  cases h
  rfl

theorem find?_of_perm {s t : Table α} (h : s.entries.Perm t.entries) (name : String) :
    s.find? name = t.find? name := by
  cases found : t.find? name with
  | none =>
    apply Entries.find?_eq_none_iff.mpr
    rw [(h.map Prod.fst).mem_iff]
    exact Entries.find?_eq_none_iff.mp found
  | some x =>
    apply Entries.find?_of_mem s.distinct
    exact h.mem_iff.mpr (Entries.mem_of_find? found)

variable {β : Type} {f : α → β} {s t : Table α}

theorem perm_of_find? (h : ∀ name, s.find? name = t.find? name) : s.entries.Perm t.entries := by
  apply (List.perm_ext_iff_of_nodup (List.Nodup.of_map _ s.distinct)
    (List.Nodup.of_map _ t.distinct)).mpr
  intro e
  constructor
  · intro he
    exact Entries.mem_of_find? ((h e.1).symm.trans (Entries.find?_of_mem s.distinct he))
  · intro he
    exact Entries.mem_of_find? ((h e.1).trans (Entries.find?_of_mem t.distinct he))

theorem keys_perm_of_find? (h : ∀ name, (s.find? name).map f = (t.find? name).map f) :
    (s.entries.map Prod.fst).Perm (t.entries.map Prod.fst) := by
  refine (List.perm_ext_iff_of_nodup s.distinct t.distinct).mpr fun name => ?_
  have same := congrArg Option.isNone (h name)
  rw [Option.isNone_map, Option.isNone_map, Bool.eq_iff_iff, Option.isNone_iff_eq_none,
    Option.isNone_iff_eq_none] at same
  exact not_iff_not.mp
    (Entries.find?_eq_none_iff.symm.trans (same.trans Entries.find?_eq_none_iff))

/-- Tables agree under a comparison of images when they have equal images under every name. -/
theorem agrees_iff {same : α → α → Bool}
    (each : ∀ d ∈ s.entries, ∀ e ∈ t.entries, same d.2 e.2 = true ↔ f d.2 = f e.2) :
    s.agrees same t = true ↔ ∀ name, (s.find? name).map f = (t.find? name).map f := by
  rw [agrees, Bool.and_eq_true, beq_iff_eq, List.all_eq_true]
  constructor
  · rintro ⟨sizes, all⟩ name
    have found {d : String × α} (hd : d ∈ s.entries) :
        ∃ y, t.find? d.1 = some y ∧ f d.2 = f y := by
      have any := all d hd
      cases hy : t.find? d.1 with
      | none =>
        rw [hy] at any
        cases any
      | some y =>
        rw [hy] at any
        exact ⟨y, rfl, (each d hd (d.1, y) (Entries.mem_of_find? hy)).mp any⟩
    have inside : s.entries.map Prod.fst ⊆ t.entries.map Prod.fst := by
      intro key hkey
      obtain ⟨d, hd, rfl⟩ := List.mem_map.mp hkey
      obtain ⟨y, hy, _⟩ := found hd
      exact List.mem_map.mpr ⟨(d.1, y), Entries.mem_of_find? hy, rfl⟩
    have keys : (s.entries.map Prod.fst).Perm (t.entries.map Prod.fst) := by
      refine (List.subperm_of_subset s.distinct inside).perm_of_length_le ?_
      rw [List.length_map, List.length_map]
      exact Nat.le_of_eq sizes.symm
    cases known : s.find? name with
    | some x =>
      obtain ⟨y, hy, equal⟩ := found (Entries.mem_of_find? known)
      rw [hy, Option.map_some, Option.map_some, equal]
    | none =>
      have missing : t.find? name = none := by
        apply Entries.find?_eq_none_iff.mpr
        rw [← keys.mem_iff]
        exact Entries.find?_eq_none_iff.mp known
      rw [missing]
  · intro h
    constructor
    · have lengths := (keys_perm_of_find? h).length_eq
      rwa [List.length_map, List.length_map] at lengths
    · intro d hd
      have known : s.find? d.1 = some d.2 := Entries.find?_of_mem s.distinct hd
      have images := h d.1
      rw [known, Option.map_some] at images
      obtain ⟨y, hy, equal⟩ := Option.map_eq_some_iff.mp images.symm
      rw [hy]
      exact (each d hd (d.1, y) (Entries.mem_of_find? hy)).mpr equal.symm

end Table

namespace SortedTable

variable {α β : Type}

theorem ext {s t : SortedTable α} (h : s.entries = t.entries) : s = t := by
  cases s
  cases t
  cases h
  rfl

theorem mem_insert_empty {name : String} {value : α} {e : String × α} :
    e ∈ (empty.insert name value).entries ↔ e = (name, value) :=
  List.mem_singleton

theorem find?_foldl_insert (name : String) (l : List (String × α)) (t : SortedTable α) :
    Entries.find? name (l.foldl (fun t e => t.insert e.1 e.2) t).entries =
      (Entries.find? name l.reverse).or (Entries.find? name t.entries) := by
  induction l generalizing t with
  | nil => simp
  | cons e rest ih =>
    rw [List.foldl_cons, ih, List.reverse_cons, Entries.find?_append, Option.or_assoc]
    congr 1
    exact (Entries.find?_place e.1 name e.2 t.entries).trans (by
      by_cases h : e.1 = name <;> simp [Entries.find?, h])

theorem find?_ofList (name : String) (l : List (String × α)) :
    Entries.find? name (ofList l).entries = Entries.find? name l.reverse :=
  (find?_foldl_insert name l empty).trans Option.or_none

theorem find?_ofList_of_distinct {l : List (String × α)} (distinct : (l.map Prod.fst).Nodup)
    (name : String) : Entries.find? name (ofList l).entries = Entries.find? name l := by
  rw [find?_ofList, Entries.find?_reverse distinct]

theorem foldl_insert_perm (l : List (String × α)) (t : SortedTable α)
    (distinct : ((t.entries ++ l).map Prod.fst).Nodup) :
    (l.foldl (fun t e => t.insert e.1 e.2) t).entries.Perm (t.entries ++ l) := by
  induction l generalizing t with
  | nil => simp
  | cons e rest ih =>
    have fresh : e.1 ∉ t.entries.map Prod.fst := by
      rw [List.map_append, List.nodup_append] at distinct
      exact fun known => distinct.2.2 _ known _ (by simp) rfl
    have moved : ((t.insert e.1 e.2).entries ++ rest).Perm (t.entries ++ e :: rest) :=
      ((Entries.place_perm_of_fresh e.2 fresh).append_right rest).trans List.perm_middle.symm
    rw [List.foldl_cons]
    exact (ih _ ((moved.map _).nodup_iff.mpr distinct)).trans moved

theorem perm_ofList {l : List (String × α)} (distinct : (l.map Prod.fst).Nodup) :
    (ofList l).entries.Perm l :=
  foldl_insert_perm l empty distinct

theorem foldl_insert_ascending (l : List (String × α)) (t : SortedTable α)
    (ascending : (t.entries ++ l).Pairwise (·.1 < ·.1)) :
    (l.foldl (fun t e => t.insert e.1 e.2) t).entries = t.entries ++ l := by
  induction l generalizing t with
  | nil => simp
  | cons e rest ih =>
    have grown : (t.insert e.1 e.2).entries = t.entries ++ [e] :=
      Entries.place_of_above _ fun a ha =>
        (List.pairwise_append.mp ascending).2.2 a ha e List.mem_cons_self
    rw [List.foldl_cons, ih _ (by rwa [grown, List.append_assoc]), grown, List.append_assoc]
    rfl

theorem entries_ofList_of_ascending {l : List (String × α)} (ascending : l.Pairwise (·.1 < ·.1)) :
    (ofList l).entries = l :=
  foldl_insert_ascending l empty ascending

theorem ofList_mapValues (f : α → β) (l : List (String × α)) :
    (ofList (Entries.mapValues f l)).entries = Entries.mapValues f (ofList l).entries := by
  refine Entries.ext_of_ascending (ofList _).ascending ?_ fun name => ?_
  · exact List.pairwise_map.mpr (ofList l).ascending
  · have turned : (Entries.mapValues f l).reverse = Entries.mapValues f l.reverse :=
      List.map_reverse.symm
    rw [find?_ofList, turned, Entries.find?_mapValues, Entries.find?_mapValues, find?_ofList]

end SortedTable

end GridSweep
