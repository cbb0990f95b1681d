import GridSweep.Proofs.Json.Unambiguous
import GridSweep.Proofs.Number.Distinct

/-!
When two values are the same. A compact text belongs to one value (`chars_compact_inj`), so canonical
texts tell values apart that differ anywhere. Equality of values overlooks one thing only, the sign of
a floating-point zero (`same_iff_unsigned`).
-/
namespace GridSweep

namespace Json

open GridSweep.Decode Machine

theorem tree_eq_of_chars {a b : Json} (h : chars .compact a = chars .compact b) :
    tree a = tree b := by
  have read := ofMachine_chars a delimited_nil
  rw [h, ofMachine_chars b delimited_nil] at read
  exact (congrArg Document.root read).symm

theorem tree_num_ne (n : Number) {b : Json} (other : ∀ m, b ≠ num m) : tree (num n) ≠ tree b := by
  intro same
  rw [tree, numeralNode] at same
  cases b with
  | num m => exact other m rfl
  | _ => split at same <;> simp [tree] at same

theorem eq_of_map_eq {α β : Type} {f : α → β} {l m : List α} (h : l.map f = m.map f)
    (inj : ∀ x ∈ l, ∀ y, f x = f y → x = y) : l = m := by
  induction l generalizing m with
  | nil =>
    cases m with
    | nil => rfl
    | cons y m => cases h
  | cons x l ih =>
    cases m with
    | nil => cases h
    | cons y m =>
      obtain ⟨first, later⟩ := List.cons.inj h
      have head := inj x List.mem_cons_self y first
      have tail := ih later fun z hz => inj z (List.mem_cons_of_mem _ hz)
      rw [head, tail]

theorem ofJson_inj {a b : Json} (h : Node.ofJson a = Node.ofJson b) : a = b := by
  induction a using tree_induction generalizing b with
  | null | bool | num | str => cases b <;> simp_all [Node.ofJson]
  | arr items ih =>
    cases b with
    | arr others =>
      rw [Node.ofJson, Node.ofJson, Node.ofItems_eq_map, Node.ofItems_eq_map] at h
      rw [eq_of_map_eq (Node.seq.inj h) fun x hx y same => ih x hx same]
    | null | bool | num | str | obj => simp [Node.ofJson] at h
  | obj members ih =>
    cases b with
    | obj others =>
      rw [Node.ofJson, Node.ofJson, Node.ofMembers_eq_map, Node.ofMembers_eq_map] at h
      have members_ := eq_of_map_eq (Node.map.inj h) fun e he f same => by
        obtain ⟨names, values⟩ := Prod.mk.inj same
        exact Prod.ext (Node.str.inj names) (ih e he values)
      rw [members_]
    | null | bool | num | str | arr => simp [Node.ofJson] at h

theorem chars_compact_inj {a b : Json} : chars .compact a = chars .compact b ↔ a = b := by
  constructor
  · intro h
    have trees := tree_eq_of_chars h
    induction a using tree_induction generalizing b with
    | null =>
      cases b with
      | null => rfl
      | num n => exact absurd trees.symm (tree_num_ne n (by simp))
      | _ => simp [tree] at trees
    | bool p =>
      cases b with
      | bool q => simpa [tree] using trees
      | num n => exact absurd trees.symm (tree_num_ne n (by simp))
      | _ => simp [tree] at trees
    | num n =>
      cases b with
      | num m =>
        have texts : n.text = m.text := by simpa [chars, String.toList_inj] using h
        rw [Number.text_inj.mp texts]
      | _ => exact absurd trees (tree_num_ne n (by simp))
    | str s =>
      cases b with
      | str t => simpa [tree] using trees
      | num n => exact absurd trees.symm (tree_num_ne n (by simp))
      | _ => simp [tree] at trees
    | arr items ih =>
      cases b with
      | arr others =>
        have items_ := eq_of_map_eq (chars_arr_inj.mp h) fun x hx y same =>
          ih x hx same (tree_eq_of_chars same)
        rw [items_]
      | num n => exact absurd trees.symm (tree_num_ne n (by simp))
      | _ => simp [tree] at trees
    | obj members ih =>
      cases b with
      | obj others =>
        have members_ := eq_of_map_eq (chars_obj_inj.mp h) fun e he f same => by
          obtain ⟨names, texts⟩ := Prod.mk.inj same
          exact Prod.ext names (ih e he texts (tree_eq_of_chars texts))
        rw [members_]
      | num n => exact absurd trees.symm (tree_num_ne n (by simp))
      | _ => simp [tree] at trees
  · intro h
    rw [h]

theorem compact_inj {a b : Json} : a.compact = b.compact ↔ a = b := by
  rw [← String.toList_inj, toList_compact, toList_compact, chars_compact_inj]

theorem canonical_inj {a b : Json} : a.canonical = b.canonical ↔ a.normal = b.normal := by
  rw [canonical_eq_iff, chars_compact_inj]

end Json

namespace Double

def unsigned (x : Double) : Double := if x.isZero then zero else x

theorem parts_of_magnitude {x y : Double} (h : x.magnitude = y.magnitude) :
    x.unit = y.unit ∧ x.significand = y.significand := by
  have first : ¬ x.unit < y.unit := fun less => (magnitude_lt_of_unit_lt less).ne h
  have second : ¬ y.unit < x.unit := fun less => (magnitude_lt_of_unit_lt less).ne' h
  have units : x.unit = y.unit := by omega
  rw [magnitude_eq, magnitude_eq, units] at h
  exact ⟨units, Nat.eq_of_mul_eq_mul_right (Nat.two_pow_pos y.unit) h⟩

theorem eq_of_scaled {x y : Double} (nonzero : x.isZero = false) (h : x.scaled = y.scaled) :
    x = y := by
  have positive : x.magnitude ≠ 0 := by
    rw [Ne, magnitude_eq_zero_iff, nonzero]
    decide
  unfold scaled at h
  have sizes : x.magnitude = y.magnitude := by
    split at h <;> split at h <;> omega
  have signs : x.negative = y.negative := by
    cases hx : x.negative <;> cases hy : y.negative <;> simp [hx, hy] at h ⊢ <;> omega
  obtain ⟨units, significands⟩ := parts_of_magnitude sizes
  exact eq_of_parts units significands signs

theorem same_iff_unsigned {x y : Double} (hx : x.isNaN = false) (hy : y.isNaN = false) :
    x.same y = true ↔ x.unsigned = y.unsigned := by
  have scaled_zero {z : Double} (zero : z.isZero = true) : z.scaled = 0 := by
    rw [scaled, magnitude_eq_zero_iff.mpr zero]
    simp
  simp only [same, hx, hy, Bool.not_false, Bool.true_and, beq_iff_eq, unsigned]
  constructor
  · intro h
    cases zero : x.isZero with
    | true =>
      have other : y.isZero = true := by
        cases nonzero : y.isZero with
        | true => rfl
        | false =>
          rw [← eq_of_scaled nonzero h.symm] at zero
          rw [← zero, nonzero]
      rw [other, if_pos rfl, if_pos rfl]
    | false =>
      obtain rfl := eq_of_scaled zero h
      rw [zero]
  · intro h
    cases zero : x.isZero <;> cases zero' : y.isZero <;> simp only [zero, zero', if_true,
      Bool.false_eq_true, if_false] at h
    · rw [h]
    · rw [h] at zero
      cases zero
    · rw [← h] at zero'
      cases zero'
    · rw [scaled_zero zero, scaled_zero zero']

end Double

def Number.unsigned : Number → Number
  | .int i => .int i
  | .float x => .float x.unsigned

theorem Number.Held.same_iff_unsigned {m n : Number} (hm : m.Held) (hn : n.Held) :
    m.same n = true ↔ m.unsigned = n.unsigned := by
  cases m with
  | int i => cases n <;> simp [same, unsigned]
  | float x =>
    cases n with
    | int j => simp [same, unsigned]
    | float y =>
      simp only [same, unsigned, float.injEq]
      exact Double.same_iff_unsigned (Double.not_isNaN hm) (Double.not_isNaN hn)

namespace Json

mutual

def unsigned : Json → Json
  | null => null
  | bool b => bool b
  | num n => num n.unsigned
  | str s => str s
  | arr items => arr (unsignedItems items)
  | obj members => obj (unsignedMembers members)

def unsignedItems : List Json → List Json
  | [] => []
  | x :: rest => unsigned x :: unsignedItems rest

def unsignedMembers : List (String × Json) → List (String × Json)
  | [] => []
  | (name, x) :: rest => (name, unsigned x) :: unsignedMembers rest

end

theorem sameItems_iff {l m : List Json}
    (each : ∀ x ∈ l, ∀ y ∈ m, x.same y = true ↔ x.unsigned = y.unsigned) :
    sameItems l m = true ↔ unsignedItems l = unsignedItems m := by
  induction l generalizing m with
  | nil => cases m <;> simp [sameItems, unsignedItems]
  | cons x l ih =>
    cases m with
    | nil => simp [sameItems, unsignedItems]
    | cons y m =>
      have later := @ih m fun a ha b hb =>
        each a (List.mem_cons_of_mem _ ha) b (List.mem_cons_of_mem _ hb)
      simp only [sameItems, Bool.and_eq_true, unsignedItems, List.cons.injEq, later,
        each x List.mem_cons_self y List.mem_cons_self]

theorem sameMembers_iff {l m : List (String × Json)}
    (each : ∀ e ∈ l, ∀ f ∈ m, e.2.same f.2 = true ↔ e.2.unsigned = f.2.unsigned) :
    sameMembers l m = true ↔ unsignedMembers l = unsignedMembers m := by
  induction l generalizing m with
  | nil => cases m <;> simp [sameMembers, unsignedMembers]
  | cons e l ih =>
    obtain ⟨name, x⟩ := e
    cases m with
    | nil => simp [sameMembers, unsignedMembers]
    | cons f m =>
      obtain ⟨other, y⟩ := f
      have later := @ih m fun a ha b hb =>
        each a (List.mem_cons_of_mem _ ha) b (List.mem_cons_of_mem _ hb)
      simp only [sameMembers, Bool.and_eq_true, beq_iff_eq, unsignedMembers, List.cons.injEq,
        Prod.mk.injEq, later, each (name, x) List.mem_cons_self (other, y) List.mem_cons_self]

theorem same_iff_unsigned {a b : Json} (ha : ∀ n ∈ a.numbers, n.Held)
    (hb : ∀ n ∈ b.numbers, n.Held) : a.same b = true ↔ a.unsigned = b.unsigned := by
  induction a using tree_induction generalizing b with
  | null => cases b <;> simp [same, unsigned]
  | bool p => cases b <;> simp [same, unsigned]
  | str s => cases b <;> simp [same, unsigned]
  | num n =>
    cases b with
    | num m =>
      simp only [same, unsigned, num.injEq]
      exact (ha n List.mem_cons_self).same_iff_unsigned (hb m List.mem_cons_self)
    | _ => simp [same, unsigned]
  | arr items ih =>
    cases b with
    | arr others =>
      simp only [same, unsigned, arr.injEq]
      exact sameItems_iff fun x hx y hy => ih x hx
        (fun n hn => ha n (mem_itemNumbers.mpr ⟨x, hx, hn⟩))
        fun n hn => hb n (mem_itemNumbers.mpr ⟨y, hy, hn⟩)
    | _ => simp [same, unsigned]
  | obj members ih =>
    cases b with
    | obj others =>
      simp only [same, unsigned, obj.injEq]
      exact sameMembers_iff fun e he f hf => ih e he
        (fun n hn => ha n (mem_memberNumbers.mpr ⟨e, he, hn⟩))
        fun n hn => hb n (mem_memberNumbers.mpr ⟨f, hf, hn⟩)
    | _ => simp [same, unsigned]

theorem itemNumbers_unsigned {l : List Json}
    (each : ∀ x ∈ l, x.unsigned.numbers = x.numbers.map Number.unsigned) :
    itemNumbers (unsignedItems l) = (itemNumbers l).map Number.unsigned := by
  induction l with
  | nil => rfl
  | cons x rest ih =>
    have later := ih fun y hy => each y (List.mem_cons_of_mem _ hy)
    simp only [unsignedItems, itemNumbers, List.map_append, each x List.mem_cons_self, later]

theorem memberNumbers_unsigned {l : List (String × Json)}
    (each : ∀ e ∈ l, e.2.unsigned.numbers = e.2.numbers.map Number.unsigned) :
    memberNumbers (unsignedMembers l) = (memberNumbers l).map Number.unsigned := by
  induction l with
  | nil => rfl
  | cons e rest ih =>
    obtain ⟨name, x⟩ := e
    have later := ih fun f hf => each f (List.mem_cons_of_mem _ hf)
    simp only [unsignedMembers, memberNumbers, List.map_append, each (name, x) List.mem_cons_self,
      later]

theorem numbers_unsigned (j : Json) : j.unsigned.numbers = j.numbers.map Number.unsigned := by
  induction j using tree_induction with
  | null => rfl
  | bool b => rfl
  | num n => rfl
  | str s => rfl
  | arr items ih => exact itemNumbers_unsigned ih
  | obj members ih => exact memberNumbers_unsigned ih

def ZeroFree (j : Json) : Prop := ∀ x, Number.float x ∈ j.numbers → x.isZero = false

theorem unsignedItems_eq_self {l : List Json} (each : ∀ x ∈ l, x.unsigned = x) :
    unsignedItems l = l := by
  induction l with
  | nil => rfl
  | cons x rest ih =>
    have later := ih fun y hy => each y (List.mem_cons_of_mem _ hy)
    rw [unsignedItems, each x List.mem_cons_self, later]

theorem unsignedMembers_eq_self {l : List (String × Json)} (each : ∀ e ∈ l, e.2.unsigned = e.2) :
    unsignedMembers l = l := by
  induction l with
  | nil => rfl
  | cons e rest ih =>
    obtain ⟨name, x⟩ := e
    have later := ih fun f hf => each f (List.mem_cons_of_mem _ hf)
    have same : x.unsigned = x := each (name, x) List.mem_cons_self
    rw [unsignedMembers, same, later]

theorem ZeroFree.unsigned {j : Json} (free : j.ZeroFree) : j.unsigned = j := by
  induction j using tree_induction with
  | null => rfl
  | bool b => rfl
  | str s => rfl
  | num n =>
    cases n with
    | int i => rfl
    | float x =>
      have nonzero : x.isZero = false := free x List.mem_cons_self
      simp [Json.unsigned, Number.unsigned, Double.unsigned, nonzero]
  | arr items ih =>
    have each := unsignedItems_eq_self fun x hx => ih x hx fun y hy =>
      free y (mem_itemNumbers.mpr ⟨x, hx, hy⟩)
    rw [Json.unsigned, each]
  | obj members ih =>
    have each := unsignedMembers_eq_self fun e he => ih e he fun y hy =>
      free y (mem_memberNumbers.mpr ⟨e, he, hy⟩)
    rw [Json.unsigned, each]

/-- A value without zeros is told from all others even without signs of zeros. -/
theorem ZeroFree.eq_of_unsigned {j k : Json} (free : k.ZeroFree)
    (same : j.unsigned = k.unsigned) : j = k := by
  have zeroFree : j.ZeroFree := by
    intro x hx
    have moved : Number.float x.unsigned ∈ k.numbers := by
      rw [← free.unsigned, ← same, numbers_unsigned]
      exact List.mem_map_of_mem hx
    have nonzero := free _ moved
    cases zero : x.isZero with
    | false => rfl
    | true =>
      rw [Double.unsigned, if_pos zero] at nonzero
      exact nonzero
  rw [← zeroFree.unsigned, ← free.unsigned, same]

end Json

end GridSweep
