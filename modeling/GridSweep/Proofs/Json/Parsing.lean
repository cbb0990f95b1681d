import GridSweep.Proofs.Json.Acceptance
import GridSweep.Proofs.Json.Rereading
import GridSweep.Proofs.Number.Reading

/-!
Which bytes are the text of a JSON value. What a text spells is the tree of a value whose numbers can be
held, or it can be read nowhere (`settled_of_spells`). So a text is parsed just when the grammar spells it
for a value that nests no deeper than texts may, and what is parsed is the normal form of that value
(`parse?_eq_some_iff`, `parseBytes?_eq_some_iff`).
-/
namespace GridSweep

open Decode

namespace Numeral

open Double

theorem fitting_lt {bound : Nat} (l : List Nat) {v : Nat} (below : v < bound) :
    (fitting bound v l).1 < bound := by
  induction l generalizing v with
  | nil => exact below
  | cons d rest ih =>
    unfold fitting
    split
    · rename_i fits
      exact ih fits
    · exact below

theorem whole_lt (n : Numeral) : (fitting 0x10000000000000000 0 n.whole).1 < 0x10000000000000000 :=
  fitting_lt n.whole (by decide)

theorem isFinite_scale {m : Nat} {e : Int} {x : Double} (few : m < 0x10000000000000000)
    (scaled : scale m e = some x) : x.isFinite = true := by
  have tens : mostTens = 308 := by unfold mostTens; rfl
  have digits : (Double.ofNat m).isFinite = true :=
    isFinite_ofNat (few.le.trans (by decide +kernel))
  simp only [scale] at scaled
  split at scaled
  · split at scaled <;> cases scaled
    exact digits
  · split at scaled
    · split at scaled <;> cases scaled
      assumption
    · split at scaled
      · cases scaled
        exact isFinite_div digits (by omega)
      · split at scaled <;> cases scaled
        · exact isFinite_div (isFinite_div digits (by omega)) (by omega)
        · rfl

/-- A numeral that denotes a number denotes one of 64 bits or a finite one. -/
theorem isFinite_floating {n : Numeral} {x : Double} (read : n.floating = some x) :
    x.isFinite = true := by
  have few := fitting_lt (n.fraction.getD []) (whole_lt n)
  obtain ⟨y, magnitude, rfl⟩ := Option.map_eq_some_iff.mp read
  have finite : y.isFinite = true := by
    split at magnitude
    · exact isFinite_scale few magnitude
    · split at magnitude
      · exact isFinite_scale few magnitude
      · split at magnitude <;> cases magnitude
        rfl
  split
  · exact finite
  · exact finite

theorem held_number? {n : Numeral} {x : Number} (read : n.number? = some x) : x.Held := by
  have few := whole_lt n
  simp only [number?] at read
  split at read
  · split at read
    · cases read
      exact ⟨by omega, by omega⟩
    · split at read
      · cases read
        exact isFinite_ofNat (few.le.trans (by decide +kernel))
      · cases read
        exact ⟨by omega, by omega⟩
  · obtain ⟨y, floating, rfl⟩ := Option.map_eq_some_iff.mp read
    exact isFinite_floating floating

end Numeral

namespace Decode

/-- The tree is that of a value, with numbers that can be held, or it can be read nowhere. -/
structure Settled (n : Node) : Prop where
  held : ∀ j, n = .ofJson j → ∀ x ∈ j.numbers, x.Held
  read : (∃ j, n = .ofJson j) ∨ ∀ c, Fails (value c n)

structure SettledMember (e : Node × Node) : Prop where
  name : (∃ s, e.1 = .str s) ∨ ∀ c, Fails (memberName c e.1)
  value : Settled e.2

section Settled

theorem settled_unreadable : Settled .unreadable where
  held j same := by cases j <;> cases same
  read := .inr fun _ => fails_throw _

theorem settled_ofJson {j : Json} (none : j.numbers = [])
    (inj : ∀ k, Node.ofJson j = .ofJson k → j = k) : Settled (.ofJson j) where
  held k same := by
    obtain rfl := inj k same
    simp [none]
  read := .inl ⟨j, rfl⟩

theorem settled_numeral (n : Numeral) : Settled (Json.Machine.numeralNode n) := by
  unfold Json.Machine.numeralNode
  split
  · rename_i x read
    refine ⟨?_, .inl ⟨.num x, rfl⟩⟩
    intro j same y hy
    cases j with
    | num z =>
      cases same
      rw [List.mem_singleton.mp hy]
      exact Numeral.held_number? read
    | _ => cases same
  · exact settled_unreadable

theorem settled_pieces (l : List Json.Piece) : Settled (Json.Piece.node l) := by
  unfold Json.Piece.node
  split
  · refine settled_ofJson (j := .str _) rfl ?_
    intro k same
    cases k <;> cases same
    rfl
  · exact settled_unreadable

theorem name_pieces (l : List Json.Piece) :
    (∃ s, Json.Piece.node l = .str s) ∨ ∀ c, Fails (memberName c (Json.Piece.node l)) := by
  unfold Json.Piece.node
  split
  · exact .inl ⟨_, rfl⟩
  · exact .inr fun _ => fails_throw _

/-- Either each part has an image, or some part has none. -/
theorem exists_map_or {α β : Type} {f : α → β} {bad : β → Prop} (l : List β)
    (each : ∀ b ∈ l, (∃ a, b = f a) ∨ bad b) : (∃ m : List α, l = m.map f) ∨ ∃ b ∈ l, bad b := by
  induction l with
  | nil => exact .inl ⟨[], rfl⟩
  | cons b rest ih =>
    obtain ⟨first, later⟩ := List.forall_mem_cons.mp each
    rcases first with ⟨a, rfl⟩ | failing
    · rcases ih later with ⟨m, rfl⟩ | ⟨b, hb, failing⟩
      · exact .inl ⟨a :: m, rfl⟩
      · exact .inr ⟨b, List.mem_cons_of_mem _ hb, failing⟩
    · exact .inr ⟨b, List.mem_cons_self, failing⟩

theorem settled_seq {l : List Node} (settled : ∀ n ∈ l, Settled n) : Settled (.seq l) where
  held j same x hx := by
    cases j with
    | arr items =>
      obtain ⟨item, there, hx⟩ := Json.mem_itemNumbers.mp hx
      simp only [Node.ofJson, Node.ofItems_eq_map, Node.seq.injEq] at same
      subst same
      exact (settled _ (List.mem_map_of_mem there)).held item rfl x hx
    | _ => cases same
  read := by
    rcases exists_map_or l fun n hn => (settled n hn).read with ⟨items, rfl⟩ | ⟨n, hn, fails⟩
    · exact .inl ⟨.arr items, by rw [Node.ofJson, Node.ofItems_eq_map]⟩
    · refine .inr fun c => ?_
      rw [value]
      exact .after _ fun inner => (Json.fails_valueItems hn (fails inner)).bind _

theorem settled_map {l : List (Node × Node)} (settled : ∀ e ∈ l, SettledMember e) :
    Settled (.map l) where
  held j same x hx := by
    cases j with
    | obj members =>
      obtain ⟨e, there, hx⟩ := Json.mem_memberNumbers.mp hx
      simp only [Node.ofJson, Node.ofMembers_eq_map, Node.map.injEq] at same
      subst same
      exact (settled _ (List.mem_map_of_mem there)).value.held e.2 rfl x hx
    | _ => cases same
  read := by
    have each : ∀ e ∈ l, (∃ m : String × Json, e = (.str m.1, .ofJson m.2)) ∨
        ∀ c, Fails (memberName c e.1) ∨ Fails (value c e.2) := by
      intro e he
      obtain ⟨name, rest⟩ := settled e he
      rcases name with ⟨s, named⟩ | unnamed
      · rcases rest.read with ⟨j, valued⟩ | unread
        · exact .inl ⟨(s, j), Prod.ext named valued⟩
        · exact .inr fun c => .inr (unread c)
      · exact .inr fun c => .inl (unnamed c)
    rcases exists_map_or l each with ⟨members, rfl⟩ | ⟨e, he, fails⟩
    · exact .inl ⟨.obj members, by rw [Node.ofJson, Node.ofMembers_eq_map]⟩
    · refine .inr fun c => ?_
      rw [value]
      exact .after _ fun inner => (Json.fails_valueMembers he (fails inner)).bind _

end Settled

theorem fails_value_ofJson (j : Json) (c : Context) (refused : ¬ c.Admits j.depth) :
    Fails (value c (Node.ofJson j)) := by
  refine Json.fails_value_of_deep ?_ ?_ j c refused
  · exact fun items => by rw [Node.ofJson, Node.ofItems_eq_map]
  · exact fun members => by rw [Node.ofJson, Node.ofMembers_eq_map]

end Decode

namespace Json

/-- What a part spells is settled, as a whole or in each of its values. -/
def SettledPart : Part → Prop
  | .value n | .item n => Settled n
  | .items l => ∀ n ∈ l, Settled n
  | .member e => SettledMember e
  | .members l => ∀ e ∈ l, SettledMember e

theorem settledPart_of_spells {part : Part} {cs : List Char} (spells : Spells part cs) :
    SettledPart part := by
  induction spells with
  | null => exact settled_ofJson (j := .null) rfl fun k same => by cases k <;> cases same; rfl
  | truth => exact settled_ofJson (j := .bool true) rfl fun k same => by cases k <;> cases same; rfl
  | falsity => exact settled_ofJson (j := .bool false) rfl fun k same => by cases k <;> cases same; rfl
  | numeral _ => exact settled_numeral _
  | string _ => exact settled_pieces _
  | emptyArray _ => exact settled_seq (by simp)
  | emptyObject _ => exact settled_map (by simp)
  | array _ ih => exact settled_seq ih
  | object _ ih => exact settled_map ih
  | item _ _ _ ih => exact ih
  | firstItem _ ih => exact fun n hn => List.mem_singleton.mp hn ▸ ih
  | firstMember _ ih => exact fun e he => List.mem_singleton.mp he ▸ ih
  | nextItem _ _ before last =>
    intro n hn
    rcases List.mem_append.mp hn with hn | hn
    · exact before n hn
    · exact List.mem_singleton.mp hn ▸ last
  | nextMember _ _ before last =>
    intro e he
    rcases List.mem_append.mp he with he | he
    · exact before e he
    · exact List.mem_singleton.mp he ▸ last
  | member _ _ _ _ ih => exact ⟨name_pieces _, ih⟩

/-- A text is parsed just when the grammar spells it for the tree of a value that nests no deeper than
texts may; the normal form of that value is what it is parsed as. -/
theorem parse?_eq_some_iff {s : String} {v : Json} :
    parse? s = some v ↔
      ∃ j, Spells (.item (.ofJson j)) s.toList ∧ j.depth < 128 ∧ v = j.normal := by
  have read {j : Json} (held : ∀ x ∈ j.numbers, x.Held) (depth : j.depth < 128) :
      decodeTree value .text 0 (.ofJson j) = .ok j.normal :=
    decodeTree_of_pure (value_ofJson j held .text fun _ => Nat.le_of_lt_succ depth) 0
  have refused {n : Node} (fails : Fails (value .text n)) :
      (decodeTree value .text 0 n).toOption = none := by
    obtain ⟨cause, failed⟩ := fails.decodeTree 0
    rw [failed]
    rfl
  constructor
  · intro parsed
    obtain ⟨n, clean⟩ | ⟨n, clean⟩ : (∃ n, Document.ofText s = ⟨n, true⟩) ∨
        ∃ n, Document.ofText s = ⟨n, false⟩ := by
      cases Document.ofText s with
      | mk n clean => cases clean <;> simp
    · have spells := ofText_eq_iff.mp clean
      have settled : Settled n := settledPart_of_spells spells
      rw [parse?, decodeText, clean, Document.decode_toOption, if_pos rfl] at parsed
      rcases settled.read with ⟨j, rfl⟩ | fails
      · by_cases depth : j.depth < 128
        · rw [read (settled.held j rfl) depth] at parsed
          exact ⟨j, spells, depth, (Option.some.inj parsed).symm⟩
        · rw [refused (fails_value_ofJson j .text fun admits => depth (Nat.lt_succ_of_le (admits rfl)))] at parsed
          cases parsed
      · rw [refused (fails .text)] at parsed
        cases parsed
    · rw [parse?, decodeText, clean, Document.decode_toOption] at parsed
      cases parsed
  · rintro ⟨j, spells, depth, rfl⟩
    have settled : Settled (.ofJson j) := settledPart_of_spells spells
    rw [parse?, decodeText, spells.ofText, Document.decode_toOption, if_pos rfl,
      read (settled.held j rfl) depth]
    rfl

/-- The bytes are a text that the grammar spells for the tree of the value, and the value nests no deeper
than texts may. A number beyond the range of doubles and an escaped half of a surrogate pair stand in the
tree of no value, so a text with one of them stands for none, well-formed as it may be. -/
def Stands (bytes : ByteArray) (j : Json) : Prop :=
  ∃ s : String, bytes = s.toUTF8 ∧ Spells (.item (.ofJson j)) s.toList ∧ j.depth < 128

theorem Stands.held {bytes : ByteArray} {j : Json} (stands : Stands bytes j) :
    ∀ x ∈ j.numbers, x.Held := by
  obtain ⟨s, _, spells, _⟩ := stands
  have settled : Settled (.ofJson j) := settledPart_of_spells spells
  exact settled.held j rfl

theorem parseBytes?_eq_some_iff {bytes : ByteArray} {v : Json} :
    parseBytes? bytes = some v ↔ ∃ j, Stands bytes j ∧ v = j.normal := by
  simp only [parseBytes?, Option.bind_eq_some_iff, fromUTF8?_eq_some_iff, parse?_eq_some_iff]
  constructor
  · rintro ⟨s, rfl, j, spells, depth, rfl⟩
    exact ⟨j, ⟨s, rfl, spells, depth⟩, rfl⟩
  · rintro ⟨j, ⟨s, rfl, spells, depth⟩, rfl⟩
    exact ⟨s, rfl, j, spells, depth, rfl⟩

end Json

end GridSweep
