import GridSweep.Decode.Variant
import GridSweep.Proofs.Decode.Record

namespace GridSweep

namespace Entries

variable {α : Type} {name : String} {x : α} {l before after : List (String × α)}

/-- The second list finds what the first one finds, under every name but this one. -/
structure Without (name : String) (l m : List (String × α)) : Prop where
  distinct : (m.map Prod.fst).Nodup
  others : ∀ other, other ≠ name → find? other m = find? other l

theorem exists_split (distinct : (l.map Prod.fst).Nodup) (found : find? name l = some x) :
    ∃ before after, l = before ++ (name, x) :: after ∧
      name ∉ before.map Prod.fst ∧ name ∉ after.map Prod.fst := by
  obtain ⟨before, after, rfl⟩ := List.append_of_mem (mem_of_find? found)
  rw [List.map_append, List.nodup_append] at distinct
  obtain ⟨_, later, apart⟩ := distinct
  refine ⟨before, after, rfl, ?_, (List.nodup_cons.mp later).1⟩
  exact fun earlier => apart name earlier name List.mem_cons_self rfl

theorem without_of_split (distinct : ((before ++ (name, x) :: after).map Prod.fst).Nodup) :
    Without name (before ++ (name, x) :: after) (before ++ after) where
  distinct := by
    have sublist : (before ++ after).Sublist (before ++ (name, x) :: after) :=
      (List.sublist_cons_self _ _).append_left before
    exact distinct.sublist (sublist.map _)
  others other apart := by
    rw [find?_append, find?_append, find?, if_neg (Ne.symm apart)]

end Entries

namespace Decode

theorem Node.ofMembers_append (l m : List (String × Json)) :
    Node.ofMembers (l ++ m) = Node.ofMembers l ++ Node.ofMembers m := by
  simp only [Node.ofMembers_eq_map, List.map_append]

variable {c : Context}

theorem asideItems_map {items : List Json}
    (each : ∀ x ∈ items, aside c (.ofJson x) = pure (.ofJson x)) :
    asideItems c (items.map .ofJson) = pure (items.map .ofJson) := by
  induction items with
  | nil => rfl
  | cons x rest ih =>
    rw [List.map_cons, asideItems, each x List.mem_cons_self,
      ih fun y hy => each y (List.mem_cons_of_mem _ hy)]
    rfl

theorem asideMembers_ofMembers {members : List (String × Json)}
    (each : ∀ e ∈ members, aside c (.ofJson e.2) = pure (.ofJson e.2)) :
    asideMembers c (Node.ofMembers members) = pure (Node.ofMembers members) := by
  induction members with
  | nil => rfl
  | cons e rest ih =>
    rw [Node.ofMembers, asideMembers, each e List.mem_cons_self,
      ih fun f hf => each f (List.mem_cons_of_mem _ hf)]
    rfl

theorem aside_ofJson (unlimited : c.limited = false) (x : Json) :
    aside c (.ofJson x) = pure (.ofJson x) := by
  induction x using Json.tree_induction with
  | null | bool b | num n | str s => rfl
  | arr items ih =>
    rw [Node.ofJson, Node.ofItems_eq_map, aside, Context.enter_of_unlimited unlimited, pure_bind,
      asideItems_map ih]
    rfl
  | obj members ih =>
    rw [Node.ofJson, aside, Context.enter_of_unlimited unlimited, pure_bind,
      asideMembers_ofMembers ih]
    rfl

section Tagged

variable {α : Type} {tag variant expected : String} {known : List String} {l : List (String × Json)}

/-- Members of other names are set aside in front of what stands there. -/
theorem taggedMembers_foreign (unlimited : c.limited = false) (foreign : tag ∉ l.map Prod.fst)
    (rest : List (Node × Node)) (seen : Tagged) :
    taggedMembers tag known c (Node.ofMembers l ++ rest) seen =
      taggedMembers tag known c rest ⟨seen.variant, (Node.ofMembers l).reverse ++ seen.content⟩ := by
  induction l generalizing seen with
  | nil => rfl
  | cons e l ih =>
    obtain ⟨other, later⟩ := not_or.mp (List.mem_cons.not.mp foreign)
    have name : aside c (.str e.1) = pure (.str e.1) := rfl
    rw [Node.ofMembers, List.cons_append, taggedMembers, name, pure_bind]
    simp only [if_neg (Ne.symm other), aside_ofJson unlimited, pure_bind]
    rw [ih later, List.reverse_cons, List.append_assoc]
    rfl

/-- The content is read from the object without the member that names the variant. -/
theorem internallyTagged_ofJson {content : String → Decoder α} (unlimited : c.limited = false)
    (distinct : (l.map Prod.fst).Nodup) (found : Entries.find? tag l = some (.str variant))
    (listed : variant ∈ known) :
    ∃ m, Entries.Without tag l m ∧
      internallyTagged expected tag known content c (.ofJson (.obj l)) =
        content variant c.setAside (.ofJson (.obj m)) := by
  obtain ⟨before, after, rfl, earlier, later⟩ := Entries.exists_split distinct found
  refine ⟨before ++ after, Entries.without_of_split distinct, ?_⟩
  have name : variantName known c (.str variant) = pure variant :=
    if_pos (List.contains_iff_mem.mpr listed)
  have named : aside c (.str tag) = pure (.str tag) := rfl
  have whole : Node.ofMembers after = Node.ofMembers after ++ [] := (List.append_nil _).symm
  have seen : taggedMembers tag known c
      (Node.ofMembers (before ++ (tag, .str variant) :: after)) ⟨none, []⟩ =
        pure ⟨some variant, (Node.ofMembers (before ++ after)).reverse⟩ := by
    rw [Node.ofMembers_append, taggedMembers_foreign unlimited earlier, Node.ofMembers,
      taggedMembers, named, pure_bind]
    simp only [if_true, Option.isSome_none, Bool.false_eq_true, if_false, Node.ofJson, name,
      pure_bind]
    rw [whole, taggedMembers_foreign unlimited later, taggedMembers]
    simp only [Node.ofMembers_append, List.reverse_append, List.append_nil]
  simp only [Node.ofJson, internallyTagged, behind, Context.enter_of_unlimited unlimited, pure_bind,
    seen, List.reverse_reverse]

end Tagged

end Decode

end GridSweep
