import Mathlib.Data.List.Forall2
import Mathlib.Data.Option.Basic
import GridSweep.Proofs.Json.Identity

namespace GridSweep

theorem forall₂_iff_map_eq {α β γ : Type} {R : α → β → Prop} {f : α → γ} {g : β → γ} {l : List α}
    {m : List β} (each : ∀ x ∈ l, ∀ y ∈ m, R x y ↔ f x = g y) :
    List.Forall₂ R l m ↔ l.map f = m.map g := by
  induction l generalizing m with
  | nil => cases m <;> simp
  | cons x l ih =>
    cases m with
    | nil => simp
    | cons y m =>
      have later := @ih m fun z hz w hw =>
        each z (List.mem_cons_of_mem _ hz) w (List.mem_cons_of_mem _ hw)
      simp [each x List.mem_cons_self y List.mem_cons_self, later]

theorem rel_iff_map_eq {α β γ : Type} {R : α → β → Prop} {f : α → γ} {g : β → γ} {a : Option α}
    {b : Option β} (each : ∀ x, a = some x → ∀ y, R x y ↔ f x = g y) :
    Option.Rel R a b ↔ a.map f = b.map g := by
  cases a with
  | none => cases b <;> simp
  | some x => cases b <;> simp [each x rfl]

namespace Json

/-- The same value, the order of members aside. Of members with one name the last one counts. -/
inductive Matches : Json → Json → Prop
  | null : Matches null null
  | bool (b : Bool) : Matches (bool b) (bool b)
  | num {m n : Number} (texts : m.text = n.text) : Matches (num m) (num n)
  | str (s : String) : Matches (str s) (str s)
  | arr {l m : List Json} (items : List.Forall₂ Matches l m) : Matches (arr l) (arr m)
  | obj {l m : List (String × Json)}
      (members : ∀ name, Option.Rel Matches ((obj l).member? name) ((obj m).member? name)) :
      Matches (obj l) (obj m)

theorem normal_obj_inj {l m : List (String × Json)} :
    (obj l).normal = (obj m).normal ↔
      ∀ name, ((obj l).member? name).map normal = ((obj m).member? name).map normal := by
  simp only [normal, obj.injEq, ← find?_normalMembers_eq]
  constructor
  · intro h name
    rw [h]
  · intro h
    exact Entries.ext_of_ascending (SortedTable.ofList _).ascending (SortedTable.ofList _).ascending h

theorem matches_iff_normal {a b : Json} : a.Matches b ↔ a.normal = b.normal := by
  induction a using tree_induction generalizing b with
  | null => cases b <;> constructor <;> intro h <;> cases h <;> constructor
  | bool p => cases b <;> constructor <;> intro h <;> cases h <;> constructor
  | str s => cases b <;> constructor <;> intro h <;> cases h <;> constructor
  | num n =>
    cases b with
    | num m =>
      constructor
      · intro h
        cases h with
        | num texts => rw [Number.text_inj.mp texts]
      · intro h
        cases h
        exact .num rfl
    | _ => constructor <;> intro h <;> cases h
  | arr items ih =>
    cases b with
    | arr others =>
      have each : List.Forall₂ Matches items others ↔ items.map normal = others.map normal :=
        forall₂_iff_map_eq fun x hx y _ => ih x hx
      simp only [normal, normalItems_eq_map, arr.injEq, ← each]
      constructor
      · intro h
        cases h
        assumption
      · exact .arr
    | _ => constructor <;> intro h <;> cases h
  | obj members ih =>
    cases b with
    | obj others =>
      have each (name : String) :
          Option.Rel Matches ((obj members).member? name) ((obj others).member? name) ↔
            ((obj members).member? name).map normal = ((obj others).member? name).map normal := by
        apply rel_iff_map_eq
        intro x found y
        exact ih (name, x) (List.mem_reverse.mp (Entries.mem_of_find? found))
      rw [normal_obj_inj]
      simp only [← each]
      constructor
      · intro h
        cases h
        assumption
      · exact .obj
    | _ => constructor <;> intro h <;> cases h

theorem canonical_eq_iff_matches {a b : Json} : a.canonical = b.canonical ↔ a.Matches b := by
  rw [canonical_inj, matches_iff_normal]

end Json

end GridSweep
