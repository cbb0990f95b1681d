import Mathlib.Data.List.Forall2
import GridSweep.Proofs.Decode.Failing

namespace GridSweep.Decode

variable {σ τ α β : Type}

/-- The reading gives one value or one failure, and leaves the aliases alone. -/
def Steady (m : Read α) : Prop := (∃ a, m = pure a) ∨ ∃ cause, m = throw cause

/-- The reader is steady in the tree of every value. -/
def Reads (d : Decoder α) : Prop := ∀ c x, Steady (d c (.ofJson x))

section Steady

theorem steady_pure (a : α) : Steady (pure a) := .inl ⟨a, rfl⟩

theorem steady_throw (cause : Failure) : Steady (throw cause : Read α) := .inr ⟨cause, rfl⟩

theorem throw_bind (cause : Failure) (f : α → Read β) : (throw cause : Read α) >>= f = throw cause :=
  rfl

theorem Steady.bind {m : Read α} {f : α → Read β} (steady : Steady m) (next : ∀ a, Steady (f a)) :
    Steady (m >>= f) := by
  rcases steady with ⟨a, rfl⟩ | ⟨cause, rfl⟩
  · rw [pure_bind]
    exact next a
  · exact steady_throw cause

theorem Steady.map {m : Read α} (steady : Steady m) (f : α → β) : Steady (f <$> m) := by
  rw [map_eq_pure_bind]
  exact steady.bind fun _ => steady_pure _

theorem pure_ne_throw {a : α} {cause : Failure} : (pure a : Read α) ≠ throw cause := by
  intro same
  cases congrFun same 0

theorem pure_inj {a b : α} (same : (pure a : Read α) = pure b) : a = b := by
  cases congrFun same 0
  rfl

/-- A steady reading followed by another one gives what the second gives after the first. -/
theorem Steady.bind_eq_pure {m : Read α} {f : α → Read β} (steady : Steady m) {b : β}
    (given : m >>= f = pure b) : ∃ a, m = pure a ∧ f a = pure b := by
  rcases steady with ⟨a, rfl⟩ | ⟨cause, rfl⟩
  · exact ⟨a, rfl, by rwa [pure_bind] at given⟩
  · exact absurd given.symm pure_ne_throw

theorem Steady.map_eq_pure {m : Read α} (steady : Steady m) {f : α → β} {b : β}
    (given : f <$> m = pure b) : ∃ a, m = pure a ∧ f a = b := by
  rw [map_eq_pure_bind] at given
  obtain ⟨a, read, next⟩ := steady.bind_eq_pure given
  exact ⟨a, read, pure_inj next⟩

theorem steady_enter (c : Context) : Steady c.enter := by
  unfold Context.enter
  split
  · exact steady_pure _
  · split
    · exact steady_throw _
    · exact steady_pure _

end Steady

section Readers

variable {d : Decoder α}

theorem decodeValue_eq_ok_iff (reads : Reads d) {x : Json} {a : α} :
    Json.decodeValue d x = .ok a ↔ d .value (.ofJson x) = pure a := by
  unfold Json.decodeValue decodeTree StateT.run'
  rcases reads .value x with ⟨b, given⟩ | ⟨cause, given⟩
  · rw [given]
    constructor
    · intro read
      cases read
      rfl
    · intro same
      cases pure_inj same
      rfl
  · rw [given]
    constructor
    · intro read
      cases read
    · intro same
      exact absurd same.symm pure_ne_throw

theorem reads_textAs (expected : String) : Reads (textAs expected) := by
  intro c x
  cases x <;> first | exact steady_pure _ | exact steady_throw _

theorem reads_text : Reads text := reads_textAs _

theorem reads_double : Reads double := by
  intro c x
  cases x <;> first | exact steady_pure _ | exact steady_throw _

theorem reads_integer (w : Width) : Reads (integer w) := by
  intro c x
  cases x with
  | num n =>
    cases n with
    | int i =>
      simp only [integer, behind, Node.ofJson]
      split
      · exact steady_pure _
      · exact steady_throw _
    | float y => exact steady_throw _
  | _ => exact steady_throw _

theorem reads_natural (w : Width) : Reads (natural w) := fun c x => (reads_integer w c x).map _

theorem Reads.option (reads : Reads d) : Reads (option d) := by
  intro c x
  cases x with
  | null => exact steady_pure _
  | _ => exact (reads c _).map _

theorem Reads.each (reads : Reads d) (c : Context) (items : List Json) :
    Steady (each d c (items.map .ofJson)) := by
  induction items with
  | nil => exact steady_pure _
  | cons x rest ih => exact (reads c x).bind fun _ => ih.bind fun _ => steady_pure _

theorem Reads.list (reads : Reads d) : Reads (list d) := by
  intro c x
  cases x with
  | arr items =>
    simp only [Node.ofJson, Node.ofItems_eq_map]
    exact (steady_enter c).bind fun inner => reads.each inner items
  | _ => exact steady_throw _

theorem Reads.eachMember (reads : Reads d) (c : Context) (members : List (String × Json)) :
    Steady (eachMember d c (Node.ofMembers members)) := by
  induction members with
  | nil => exact steady_pure _
  | cons e rest ih =>
    exact (reads_textAs _ c (.str e.1)).bind fun _ =>
      (reads c e.2).bind fun _ => ih.bind fun _ => steady_pure _

theorem Reads.entries (reads : Reads d) : Reads (entries d) := by
  intro c x
  cases x with
  | obj members => exact (steady_enter c).bind fun inner => reads.eachMember inner members
  | _ => exact steady_throw _

theorem Reads.table (reads : Reads d) : Reads (table d) := fun c x => (reads.entries c x).map _

theorem Reads.sortedTable (reads : Reads d) : Reads (sortedTable d) :=
  fun c x => (reads.entries c x).map _

theorem reads_value : Reads value := by
  intro c x
  induction x using Json.tree_induction generalizing c with
  | null | bool b | str s => exact steady_pure _
  | num n => cases n <;> exact steady_pure _
  | arr items ih =>
    rw [Node.ofJson, Node.ofItems_eq_map, value]
    refine (steady_enter c).bind fun inner => Steady.bind ?_ fun _ => steady_pure _
    induction items with
    | nil => exact steady_pure _
    | cons x rest tail =>
      obtain ⟨first, later⟩ := List.forall_mem_cons.mp ih
      exact (first inner).bind fun _ => (tail later).bind fun _ => steady_pure _
  | obj members ih =>
    rw [Node.ofJson, value]
    refine (steady_enter c).bind fun inner => Steady.bind ?_ fun _ => steady_pure _
    induction members with
    | nil => exact steady_pure _
    | cons e rest tail =>
      obtain ⟨first, later⟩ := List.forall_mem_cons.mp ih
      exact (reads_textAs _ inner (.str e.1)).bind fun _ =>
        (first inner).bind fun _ => (tail later).bind fun _ => steady_pure _

theorem Reads.each_iff (reads : Reads d) {c : Context} {items : List Json} {l : List α} :
    Decode.each d c (items.map .ofJson) = pure l ↔
      List.Forall₂ (fun x a => d c (.ofJson x) = pure a) items l := by
  induction items generalizing l with
  | nil =>
    rw [List.forall₂_nil_left_iff, List.map_nil, Decode.each]
    exact ⟨fun same => (pure_inj same).symm, fun same => congrArg pure same.symm⟩
  | cons x rest ih =>
    rw [List.forall₂_cons_left_iff, List.map_cons, Decode.each]
    constructor
    · intro read
      obtain ⟨a, first, read⟩ := (reads c x).bind_eq_pure read
      obtain ⟨m, later, same⟩ := (reads.each c rest).bind_eq_pure read
      exact ⟨a, m, first, ih.mp later, (pure_inj same).symm⟩
    · rintro ⟨a, m, first, later, rfl⟩
      rw [first, pure_bind, ih.mpr later]
      rfl

theorem Reads.list_iff (reads : Reads d) {c : Context} (unlimited : c.limited = false) {x : Json}
    {l : List α} : Decode.list d c (.ofJson x) = pure l ↔
      ∃ items, x = .arr items ∧ List.Forall₂ (fun x a => d c (.ofJson x) = pure a) items l := by
  cases x with
  | arr items =>
    simp only [Node.ofJson, Node.ofItems_eq_map, Decode.list, behind, Node.body,
      Context.enter_of_unlimited unlimited, pure_bind, reads.each_iff, Json.arr.injEq]
    simp
  | _ =>
    constructor
    · intro read
      exact absurd read.symm pure_ne_throw
    · rintro ⟨items, same, _⟩
      cases same

theorem text_iff {c : Context} {x : Json} {s : String} :
    text c (.ofJson x) = pure s ↔ x = .str s := by
  cases x with
  | str t =>
    rw [Json.str.injEq]
    exact ⟨pure_inj, congrArg pure⟩
  | _ => simp [text, textAs, behind, Node.ofJson, pure_ne_throw.symm]

theorem Reads.option_iff (reads : Reads d) {c : Context} {x : Json} {o : Option α} :
    Decode.option d c (.ofJson x) = pure o ↔
      x = .null ∧ o = none ∨ x ≠ .null ∧ ∃ a, d c (.ofJson x) = pure a ∧ o = some a := by
  by_cases null : x = .null
  · subst null
    simp only [true_and, ne_eq, not_true_eq_false, false_and, or_false]
    exact ⟨fun read => (pure_inj read).symm, fun same => congrArg pure same.symm⟩
  · have given : Decode.option d c (.ofJson x) = some <$> d c (.ofJson x) := by
      cases x with
      | null => exact absurd rfl null
      | _ => rfl
    simp only [given, null, false_and, false_or, ne_eq, not_false_eq_true, true_and]
    constructor
    · intro read
      obtain ⟨a, read, same⟩ := (reads c x).map_eq_pure read
      exact ⟨a, read, same.symm⟩
    · rintro ⟨a, read, rfl⟩
      rw [read, map_pure]

theorem integer_iff {w : Width} {c : Context} {x : Json} {i : Int} :
    integer w c (.ofJson x) = pure i ↔ x = .num (.int i) ∧ w.holds i = true := by
  cases x with
  | num n =>
    cases n with
    | int k =>
      simp only [integer, behind, Node.ofJson, Json.num.injEq, Number.int.injEq]
      split
      · rename_i holds
        constructor
        · intro read
          obtain rfl := pure_inj read
          exact ⟨rfl, holds⟩
        · rintro ⟨rfl, _⟩
          rfl
      · rename_i refused
        simp only [pure_ne_throw.symm, false_iff, not_and]
        rintro rfl
        exact refused
    | float y => simp [integer, behind, Node.ofJson, pure_ne_throw.symm]
  | _ => simp [integer, behind, Node.ofJson, pure_ne_throw.symm]

theorem natural_u32_iff {c : Context} {x : Json} {n : Nat} :
    natural .u32 c (.ofJson x) = pure n ↔ x = .num (.int n) ∧ n ≤ 0xffffffff := by
  have holds (i : Int) : Width.u32.holds i = true ↔ 0 ≤ i ∧ i ≤ 0xffffffff := by
    simp only [Width.holds, Bool.and_eq_true, decide_eq_true_eq]
    rfl
  constructor
  · intro read
    obtain ⟨i, given, rfl⟩ := (reads_integer .u32 c x).map_eq_pure read
    obtain ⟨rfl, bounds⟩ := integer_iff.mp given
    rw [holds] at bounds
    exact ⟨by rw [Int.toNat_of_nonneg bounds.1], by omega⟩
  · rintro ⟨rfl, fits⟩
    have read : integer .u32 c (.ofJson (.num (.int n))) = pure (n : Int) :=
      integer_iff.mpr ⟨rfl, (holds _).mpr (by omega)⟩
    rw [natural, read]
    rfl

end Readers

end GridSweep.Decode
