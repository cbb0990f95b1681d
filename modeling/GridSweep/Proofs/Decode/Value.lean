import GridSweep.Proofs.Json.Reading

namespace GridSweep.Decode

/-- So many more arrays and objects may be entered. -/
def Context.Admits (c : Context) (n : Nat) : Prop := c.limited = true → n ≤ c.depth

theorem Context.Admits.mono {c : Context} {m n : Nat} (admits : c.Admits n) (h : m ≤ n) :
    c.Admits m := fun limited => Nat.le_trans h (admits limited)

/-- A place that admits one level more than `n` can be entered, and inside it admits `n`. -/
theorem Context.Admits.enter {c : Context} {n : Nat} (admits : c.Admits (n + 1)) :
    ∃ inner : Context, c.enter = pure inner ∧ inner.origin = c.origin ∧ inner.Admits n := by
  unfold Context.enter
  cases limited : c.limited with
  | false => exact ⟨c, rfl, rfl, fun h => absurd (limited.symm.trans h) Bool.false_ne_true⟩
  | true =>
    have deep : n + 1 ≤ c.depth := admits limited
    have open_ : c.depth ≠ 0 := by omega
    refine ⟨{ c with depth := c.depth - 1 }, ?_, rfl, fun _ => ?_⟩
    · simp [open_]
    · exact Nat.le_sub_of_add_le deep

theorem Context.admits_of_unlimited {c : Context} (h : c.limited = false) (n : Nat) :
    c.Admits n := fun limited => absurd (h.symm.trans limited) Bool.false_ne_true

theorem valueItems_map {α : Type} {c : Context} (tree : α → Node) (result : α → Json) {l : List α}
    (reads : ∀ x ∈ l, value c (tree x) = pure (result x)) :
    valueItems c (l.map tree) = pure (l.map result) := by
  induction l with
  | nil => rfl
  | cons x rest ih =>
    rw [List.map_cons, valueItems, reads x List.mem_cons_self,
      ih fun y hy => reads y (List.mem_cons_of_mem _ hy)]
    rfl

theorem valueMembers_map {α : Type} {c : Context} (tree : α → Node) (result : α → Json)
    {l : List (String × α)} (reads : ∀ e ∈ l, value c (tree e.2) = pure (result e.2)) :
    valueMembers c (l.map fun e => (.str e.1, tree e.2)) = pure (Entries.mapValues result l) := by
  induction l with
  | nil => rfl
  | cons e rest ih =>
    rw [List.map_cons, valueMembers, reads e List.mem_cons_self,
      ih fun f hf => reads f (List.mem_cons_of_mem _ hf)]
    rfl

theorem value_ofJson (j : Json) (held : ∀ n ∈ j.numbers, n.Held) :
    ∀ c : Context, c.Admits j.depth → value c (Node.ofJson j) = pure j.normal := by
  induction j using Json.tree_induction with
  | null => exact fun _ _ => rfl
  | bool b => exact fun _ _ => rfl
  | str s => exact fun _ _ => rfl
  | num n =>
    intro c _
    cases n with
    | int i => rfl
    | float x =>
      have finite : x.isFinite = true := held (.float x) List.mem_cons_self
      rw [Node.ofJson, value, Json.ofDouble, if_pos finite]
      rfl
  | arr items ih =>
    intro c admits
    obtain ⟨inner, entered, _, deeper⟩ := admits.enter
    have each : ∀ x ∈ items, value inner (Node.ofJson x) = pure x.normal := fun x hx =>
      ih x hx (fun n hn => held n (Json.mem_itemNumbers.mpr ⟨x, hx, hn⟩)) inner
        (deeper.mono (Json.depth_le_itemsDepth hx))
    rw [Node.ofJson, Node.ofItems_eq_map, value, entered, pure_bind, valueItems_map _ _ each,
      Json.normal, Json.normalItems_eq_map]
    rfl
  | obj members ih =>
    intro c admits
    obtain ⟨inner, entered, _, deeper⟩ := admits.enter
    have each : ∀ e ∈ members, value inner (Node.ofJson e.2) = pure e.2.normal := fun e he =>
      ih e he (fun n hn => held n (Json.mem_memberNumbers.mpr ⟨e, he, hn⟩)) inner
        (deeper.mono (Json.depth_le_membersDepth he))
    rw [Node.ofJson, Node.ofMembers_eq_map, value, entered, pure_bind, valueMembers_map _ _ each,
      Json.normal, Json.normalMembers_eq_mapValues]
    rfl

theorem value_of_held {j : Json} {c : Context} (held : j.Held) (admits : c.Admits j.depth) :
    value c (Node.ofJson j) = pure j := by
  rw [value_ofJson j held.numbers c admits, held.normal]

theorem decodeTree_of_pure {α : Type} {d : Decoder α} {c : Context} {n : Node} {a : α}
    (read : d c n = pure a) (aliases : Nat) : decodeTree d c aliases n = .ok a := by
  rw [decodeTree, read]
  rfl

end GridSweep.Decode

namespace GridSweep

theorem fromUTF8?_toUTF8 (s : String) : String.fromUTF8? s.toUTF8 = some s :=
  dif_pos s.isValidUTF8

theorem fromUTF8?_eq_some_iff {bytes : ByteArray} {s : String} :
    String.fromUTF8? bytes = some s ↔ bytes = s.toUTF8 := by
  constructor
  · intro read
    unfold String.fromUTF8? at read
    split at read
    · obtain rfl := Option.some.inj read
      rfl
    · cases read
  · rintro rfl
    exact fromUTF8?_toUTF8 s

namespace Json

open Decode

theorem Document.decode_toOption {α : Type} (document : Document) (d : Decoder α) :
    (document.decode d).toOption =
      if document.clean then (decodeTree d .text 0 document.root).toOption else none := by
  simp only [Document.decode, bind, Except.bind]
  cases decodeTree d .text 0 document.root with
  | error e => simp [Except.toOption]
  | ok x => cases document.clean <;> rfl

theorem parse?_pretty {j : Json} (held : ∀ n ∈ j.numbers, n.Held)
    (back : ∀ n ∈ j.numbers, n.ReadsBack) (depth : j.depth ≤ 127) :
    parse? j.pretty = some j.normal := by
  have read : value .text (Node.ofJson j) = pure j.normal :=
    value_ofJson j held .text fun _ => depth
  rw [parse?, decodeText, ofText_pretty back, Document.decode_toOption, if_pos rfl,
    decodeTree_of_pure read]
  rfl

end Json

end GridSweep
