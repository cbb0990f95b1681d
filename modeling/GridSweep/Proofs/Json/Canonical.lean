import GridSweep.Digest.Sha256
import GridSweep.Proofs.Json.Matching
import GridSweep.Proofs.Json.Parsing

/-!
Canonical texts as an encoding. What is read from the canonical text of a value is the value, with the
members of its objects in ascending order; texts of two values are equal just when the values differ in
nothing but the order of members (`Json.canonical_faithful`). So a digest of the text identifies a value
as far as the digest tells texts apart.
-/
namespace GridSweep

theorem Entries.mapValues_eq_iff {α β γ : Type} {f : α → γ} {g : β → γ} {l : List (String × α)}
    {m : List (String × β)} : Entries.mapValues f l = Entries.mapValues g m ↔
      l.map Prod.fst = m.map Prod.fst ∧ (l.map Prod.snd).map f = (m.map Prod.snd).map g := by
  induction l generalizing m with
  | nil => cases m <;> simp [Entries.mapValues]
  | cons e l ih =>
    cases m with
    | nil => simp [Entries.mapValues]
    | cons d m =>
      have later := @ih m
      simp only [Entries.mapValues] at later
      simp only [Entries.mapValues, List.map_cons, List.cons.injEq, Prod.mk.injEq, later]
      exact and_and_and_comm

theorem perm_map_iff {α β : Type} {f : α → β} {l : List α} {m : List β} :
    (l.map f).Perm m ↔ ∃ k, l.Perm k ∧ k.map f = m := by
  constructor
  · intro perm
    have image : List.Forall₂ (fun y x => y = f x) (l.map f) l := by
      rw [List.forall₂_map_left_iff]
      exact List.forall₂_same.mpr fun _ _ => rfl
    obtain ⟨k, same, order⟩ := List.perm_comp_forall₂ perm.symm image
    refine ⟨k, order.symm, ?_⟩
    rw [← List.forall₂_eq_eq_eq, List.forall₂_map_left_iff]
    exact same.flip.imp fun _ _ h => h.symm
  · rintro ⟨k, order, rfl⟩
    exact order.map f

theorem toUTF8_inj {s t : String} : s.toUTF8 = t.toUTF8 ↔ s = t := by
  rw [← fromUTF8?_eq_some_iff, fromUTF8?_toUTF8, Option.some.injEq, eq_comm]

namespace Json

open Decode

/-- No object in the value has two members of one name. -/
inductive Distinct : Json → Prop
  | null : Distinct null
  | bool (b : Bool) : Distinct (bool b)
  | num (n : Number) : Distinct (num n)
  | str (s : String) : Distinct (str s)
  | arr {items : List Json} (each : ∀ x ∈ items, Distinct x) : Distinct (arr items)
  | obj {members : List (String × Json)} (names : (members.map Prod.fst).Nodup)
      (each : ∀ e ∈ members, Distinct e.2) : Distinct (obj members)

/-- The same value, except that the members of objects may stand in another order. An integer is not a
floating-point number, and zeros differ in their signs. -/
inductive Reordered : Json → Json → Prop
  | null : Reordered null null
  | bool (b : Bool) : Reordered (bool b) (bool b)
  | num (n : Number) : Reordered (num n) (num n)
  | str (s : String) : Reordered (str s) (str s)
  | arr {l m : List Json} (items : List.Forall₂ Reordered l m) : Reordered (arr l) (arr m)
  | obj {l k m : List (String × Json)} (order : l.Perm k)
      (names : k.map Prod.fst = m.map Prod.fst)
      (values : List.Forall₂ Reordered (k.map Prod.snd) (m.map Prod.snd)) :
      Reordered (obj l) (obj m)

theorem arr_reordered_iff {l m : List Json} :
    (arr l).Reordered (arr m) ↔ List.Forall₂ Reordered l m := by
  constructor
  · intro h
    cases h
    assumption
  · exact .arr

theorem obj_reordered_iff {l m : List (String × Json)} :
    (obj l).Reordered (obj m) ↔ ∃ k, l.Perm k ∧ k.map Prod.fst = m.map Prod.fst ∧
      List.Forall₂ Reordered (k.map Prod.snd) (m.map Prod.snd) := by
  constructor
  · intro h
    cases h with
    | obj order names values => exact ⟨_, order, names, values⟩
  · rintro ⟨k, order, names, values⟩
    exact .obj order names values

section Normal

theorem sorted_eq_iff_perm {l m : List (String × Json)} (hl : (l.map Prod.fst).Nodup)
    (hm : (m.map Prod.fst).Nodup) : sorted l = sorted m ↔ l.Perm m := by
  constructor
  · intro same
    have perm := SortedTable.perm_ofList hl
    rw [show (SortedTable.ofList l).entries = (SortedTable.ofList m).entries from same] at perm
    exact perm.symm.trans (SortedTable.perm_ofList hm)
  · intro perm
    apply Entries.ext_of_ascending (SortedTable.ofList l).ascending (SortedTable.ofList m).ascending
    intro name
    rw [SortedTable.find?_ofList_of_distinct hl, SortedTable.find?_ofList_of_distinct hm]
    exact Table.find?_of_perm (s := ⟨l, hl⟩) (t := ⟨m, hm⟩) perm name

theorem normal_normal (j : Json) : j.normal.normal = j.normal := by
  induction j using tree_induction with
  | null | bool b | num n | str s => rfl
  | arr items ih =>
    simp only [normal, normalItems_eq_map, List.map_map, arr.injEq]
    exact List.map_congr_left ih
  | obj members ih =>
    -- What is in normal form already stays: its values by induction, its order because it ascends.
    have values : Entries.mapValues normal (sorted (normalMembers members)) =
        sorted (normalMembers members) := by
      refine (List.map_congr_left fun e he => ?_).trans (List.map_id _)
      have found : Entries.find? e.1 (sorted (normalMembers members)) = some e.2 :=
        Entries.find?_of_mem (nodup_normalMembers members) he
      rw [find?_normalMembers_eq] at found
      obtain ⟨x, given, same⟩ := Option.map_eq_some_iff.mp found
      have known := ih (e.1, x) (List.mem_reverse.mp (Entries.mem_of_find? given))
      rw [← same, known, same]
      rfl
    have order : sorted (sorted (normalMembers members)) = sorted (normalMembers members) :=
      SortedTable.entries_ofList_of_ascending (SortedTable.ofList _).ascending
    rw [normal, normal, normalMembers_eq_mapValues (sorted _), values, order]

end Normal

namespace Distinct

theorem normal {j : Json} (distinct : j.Distinct) : j.normal.Distinct := by
  induction j using tree_induction with
  | null | bool b | num n | str s => exact distinct
  | arr items ih =>
    cases distinct with
    | arr each =>
      rw [Json.normal, normalItems_eq_map]
      exact .arr (List.forall_mem_map.mpr fun x hx => ih x hx (each x hx))
  | obj members ih =>
    cases distinct with
    | obj names each =>
      refine .obj (nodup_normalMembers members) fun e he => ?_
      obtain ⟨d, hd, rfl⟩ := List.mem_map.mp ((perm_normalMembers names).mem_iff.mp he)
      exact ih d hd (each d hd)

theorem depth_normal {j : Json} (distinct : j.Distinct) : j.normal.depth = j.depth := by
  induction j using tree_induction with
  | null | bool b | num n | str s => rfl
  | arr items ih =>
    cases distinct with
    | arr each =>
      rw [Json.normal, depth, depth, normalItems_eq_map]
      refine congrArg (· + 1) (Nat.le_antisymm (itemsDepth_le ?_) (itemsDepth_le ?_))
      · refine List.forall_mem_map.mpr fun x hx => ?_
        rw [ih x hx (each x hx)]
        exact depth_le_itemsDepth hx
      · intro x hx
        rw [← ih x hx (each x hx)]
        exact depth_le_itemsDepth (List.mem_map_of_mem hx)
  | obj members ih =>
    cases distinct with
    | obj names each =>
      have perm := perm_normalMembers names
      rw [Json.normal, depth, depth]
      refine congrArg (· + 1) (Nat.le_antisymm (membersDepth_le ?_) (membersDepth_le ?_))
      · intro e he
        obtain ⟨d, hd, rfl⟩ := List.mem_map.mp (perm.mem_iff.mp he)
        rw [ih d hd (each d hd)]
        exact depth_le_membersDepth hd
      · intro d hd
        rw [← ih d hd (each d hd)]
        exact depth_le_membersDepth (e := (d.1, d.2.normal))
          (perm.mem_iff.mpr (List.mem_map_of_mem hd))

theorem numbers_normal {j : Json} (distinct : j.Distinct) {n : Number} (hn : n ∈ j.normal.numbers) :
    n ∈ j.numbers := by
  induction j using tree_induction with
  | null | bool b | num n | str s => exact hn
  | arr items ih =>
    cases distinct with
    | arr each =>
      rw [Json.normal, normalItems_eq_map] at hn
      obtain ⟨_, there, hn⟩ := mem_itemNumbers.mp hn
      obtain ⟨x, hx, rfl⟩ := List.mem_map.mp there
      exact mem_itemNumbers.mpr ⟨x, hx, ih x hx (each x hx) hn⟩
  | obj members ih =>
    cases distinct with
    | obj names each =>
      obtain ⟨_, there, hn⟩ := mem_memberNumbers.mp hn
      obtain ⟨d, hd, rfl⟩ := List.mem_map.mp ((perm_normalMembers names).mem_iff.mp there)
      exact mem_memberNumbers.mpr ⟨d, hd, ih d hd (each d hd) hn⟩

end Distinct

theorem reordered_iff_normal {a b : Json} (ha : a.Distinct) (hb : b.Distinct) :
    a.Reordered b ↔ a.normal = b.normal := by
  induction a using tree_induction generalizing b with
  | null | bool p | str s | num n =>
    cases b <;> constructor <;> intro h <;> cases h <;> constructor
  | arr items ih =>
    obtain _ | _ | _ | _ | hitems := ha
    cases hb with
    | @arr others hothers =>
      have each : List.Forall₂ Reordered items others ↔ items.map normal = others.map normal :=
        forall₂_iff_map_eq fun x hx y hy => ih x hx (hitems x hx) (hothers y hy)
      simp only [arr_reordered_iff, each, normal, normalItems_eq_map, arr.injEq]
    | _ => constructor <;> intro h <;> cases h
  | obj members ih =>
    obtain _ | _ | _ | _ | _ | ⟨names, hmembers⟩ := ha
    cases hb with
    | @obj others names' hothers =>
      have images (k : List (String × Json)) (order : members.Perm k) :
          (k.map Prod.fst = others.map Prod.fst ∧
            List.Forall₂ Reordered (k.map Prod.snd) (others.map Prod.snd)) ↔
          Entries.mapValues normal k = Entries.mapValues normal others := by
        rw [Entries.mapValues_eq_iff]
        refine and_congr_right fun _ => forall₂_iff_map_eq ?_
        refine List.forall_mem_map.mpr fun e he => List.forall_mem_map.mpr fun d hd => ?_
        have known := order.mem_iff.mpr he
        exact ih e known (hmembers e known) (hothers d hd)
      have keys {l : List (String × Json)} (names : (l.map Prod.fst).Nodup) :
          ((Entries.mapValues normal l).map Prod.fst).Nodup := by
        rwa [Entries.keys_mapValues]
      rw [obj_reordered_iff, normal, normal, obj.injEq, normalMembers_eq_mapValues,
        normalMembers_eq_mapValues, sorted_eq_iff_perm (keys names) (keys names'),
        Entries.mapValues, perm_map_iff]
      exact exists_congr fun k => and_congr_right (images k)
    | _ => constructor <;> intro h <;> cases h

theorem parse?_compact {j : Json} (held : ∀ n ∈ j.numbers, n.Held)
    (back : ∀ n ∈ j.numbers, n.ReadsBack) :
    parse? j.compact = if j.depth ≤ 127 then some j.normal else none := by
  rw [parse?, decodeText, ofText_compact back, Document.decode_toOption, if_pos rfl]
  split
  · next shallow =>
    rw [decodeTree_of_pure (value_ofJson j held .text fun _ => shallow)]
    rfl
  · next deep =>
    obtain ⟨cause, failed⟩ :=
      (fails_value_ofJson j .text fun admits => deep (admits rfl)).decodeTree 0
    rw [failed]
    rfl

/-- The canonical text of a value is read as the value, as long as it nests no deeper than texts may and
the texts of its floating-point numbers are read as these numbers. Two values have one canonical text
when they differ in the order of members at most, and only then; so they have one digest, unless the
digest fails to tell their texts apart. -/
theorem canonical_faithful {v : Json} (distinct : v.Distinct) :
    ((∀ n ∈ v.numbers, n.Held) → (∀ x, Number.float x ∈ v.numbers → x.ReadsBack) →
      parseBytes? v.canonical.toUTF8 = (if v.depth ≤ 127 then some v.normal else none) ∧
      v.Reordered v.normal) ∧
    ∀ w : Json, w.Distinct →
      (v.canonical.toUTF8 = w.canonical.toUTF8 ↔ v.Reordered w) ∧
      ((Sha256.hex v.canonical = Sha256.hex w.canonical → v.canonical = w.canonical) →
        (Sha256.hex v.canonical = Sha256.hex w.canonical ↔ v.Reordered w)) := by
  constructor
  · intro held floats
    have known : ∀ n ∈ v.normal.numbers, n ∈ v.numbers := fun _ hn => distinct.numbers_normal hn
    have back := readsBack_of_held held floats
    have read := parse?_compact (fun n hn => held n (known n hn)) fun n hn => back n (known n hn)
    rw [distinct.depth_normal, normal_normal] at read
    constructor
    · rw [parseBytes?, fromUTF8?_toUTF8]
      exact read
    · exact (reordered_iff_normal distinct distinct.normal).mpr v.normal_normal.symm
  · intro w distinct'
    have texts : v.canonical = w.canonical ↔ v.Reordered w :=
      canonical_inj.trans (reordered_iff_normal distinct distinct').symm
    refine ⟨toUTF8_inj.trans texts, fun noCollision => ?_⟩
    rw [← texts]
    exact ⟨noCollision, congrArg Sha256.hex⟩

/-- A name to be escaped, the ends of the integers, a negative zero; the members of both objects
descend. -/
def descending : Json :=
  obj [("z\"\\\n\x01é", arr [num (.int (-0x8000000000000000)), num (.int 0xffffffffffffffff),
      num (.float Double.zero.negate)]),
    ("a", obj [("y", null), ("x", num (.float .one))])]

def ascending : Json :=
  obj [("a", obj [("x", num (.float .one)), ("y", null)]),
    ("z\"\\\n\x01é", arr [num (.int (-0x8000000000000000)), num (.int 0xffffffffffffffff),
      num (.float Double.zero.negate)])]

theorem distinct_descending : descending.Distinct := by
  refine .obj (by decide) ?_
  simp only [List.forall_mem_cons]
  refine ⟨.arr ?_, .obj (by decide) ?_, by simp⟩
  · simp only [List.forall_mem_cons]
    exact ⟨.num _, .num _, .num _, by simp⟩
  · simp only [List.forall_mem_cons]
    exact ⟨.null, .num _, by simp⟩

theorem normal_descending : descending.normal = ascending := rfl

theorem numbers_descending : descending.numbers = [.int (-0x8000000000000000),
    .int 0xffffffffffffffff, .float Double.zero.negate, .float .one] := rfl

theorem floats_descending : ∀ x, Number.float x ∈ descending.numbers → x.ReadsBack := by
  intro x hx
  simp only [numbers_descending, List.mem_cons, reduceCtorEq, Number.float.injEq, false_or,
    List.not_mem_nil, or_false] at hx
  rcases hx with zero | one
  · rw [zero]
    exact Double.readsBack_of_isZero (by decide +kernel)
  · rw [one]
    exact Double.readsBack_one

theorem held_descending : ∀ n ∈ descending.numbers, n.Held := by
  intro n hn
  cases n with
  | int i =>
    simp only [numbers_descending, List.mem_cons, reduceCtorEq, Number.int.injEq,
      List.not_mem_nil, or_false] at hn
    rcases hn with rfl | rfl
    · exact ⟨by decide, by decide⟩
    · exact ⟨by decide, by decide⟩
  | float x => exact (floats_descending x hn).isFinite

/-- The text of either object is read as the one whose members ascend, and one digest stands for both;
the integer one and the floating-point one have two. -/
theorem canonical_faithful_descending :
    parseBytes? descending.canonical.toUTF8 = some ascending ∧
    Sha256.hex descending.canonical = Sha256.hex ascending.canonical ∧
    Sha256.hex (num (.int 1)).canonical ≠ Sha256.hex (num (.float .one)).canonical := by
  have ascends : ascending.Distinct := normal_descending ▸ distinct_descending.normal
  obtain ⟨reads, compares⟩ := canonical_faithful distinct_descending
  obtain ⟨read, reordered⟩ := reads held_descending floats_descending
  obtain ⟨_, digests⟩ := compares ascending ascends
  obtain ⟨_, kinds⟩ := (canonical_faithful (.num (.int 1))).2 _ (.num (.float .one))
  have depth : descending.depth ≤ 127 := by decide
  rw [if_pos depth, normal_descending] at read
  rw [normal_descending] at reordered
  refine ⟨read, (digests fun _ => ?_).mpr reordered, fun same => ?_⟩
  · decide +kernel
  · cases (kinds fun same => absurd same (by decide +kernel)).mp same

end Json

end GridSweep
