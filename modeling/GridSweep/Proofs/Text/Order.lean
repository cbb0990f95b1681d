import Mathlib.Data.String.Basic

namespace GridSweep.Text

/-- Two lists part at a place where the first has the smaller item. -/
inductive Below {α : Type} [LT α] : List α → List α → Prop where
  | here {x y : α} {l m : List α} (less : x < y) : Below (x :: l) (y :: m)
  | later {x : α} {l m : List α} (rest : Below l m) : Below (x :: l) (x :: m)

theorem Below.append_lt {α : Type} [LT α] {l m : List α} (below : Below l m) (p q : List α) :
    l ++ p < m ++ q := by
  induction below with
  | here less => exact List.cons_lt_cons_iff.mpr (.inl less)
  | later _ ih => exact List.cons_lt_cons_iff.mpr (.inr ⟨rfl, ih⟩)

theorem ofNat_lt {a b : Nat} (less : a < b) (byte : b < 256) : UInt8.ofNat a < UInt8.ofNat b := by
  rw [UInt8.lt_iff_toNat_lt, UInt8.toNat_ofNat', UInt8.toNat_ofNat']
  omega

theorem Below.append {α : Type} [LT α] {l m : List α} (below : Below l m) (p q : List α) :
    Below (l ++ p) (m ++ q) := by
  induction below with
  | here less => exact .here less
  | later _ ih => exact .later ih

theorem Below.after {α : Type} [LT α] {l m : List α} (below : Below l m) (p : List α) :
    Below (p ++ l) (p ++ m) := by
  induction p with
  | nil => exact below
  | cons x p ih => exact .later ih

def lastByte (n : Nat) : UInt8 := UInt8.ofNat (n % 64 + 128)

/-- Codes that keep the order of the bits before the last six keep the order of all bits. -/
theorem below_concat (code : Nat → List UInt8) {v w : Nat} (less : v < w)
    (before : v / 64 < w / 64 → Below (code (v / 64)) (code (w / 64))) :
    Below (code (v / 64) ++ [lastByte v]) (code (w / 64) ++ [lastByte w]) := by
  by_cases same : v / 64 = w / 64
  · have last : lastByte v < lastByte w := ofNat_lt (by omega) (by omega)
    rw [same]
    exact (Below.here last).after _
  · exact (before (by omega)).append _ _

theorem below_two {v w : Nat} (less : v < w) (fits : w < 0x800) :
    Below [UInt8.ofNat (v / 64 % 32 + 192), lastByte v]
      [UInt8.ofNat (w / 64 % 32 + 192), lastByte w] :=
  below_concat (fun n => [UInt8.ofNat (n % 32 + 192)]) less fun lead =>
    .here (ofNat_lt (by omega) (by omega))

theorem below_three {v w : Nat} (less : v < w) (fits : w < 0x10000) :
    Below [UInt8.ofNat (v / 4096 % 16 + 224), lastByte (v / 64), lastByte v]
      [UInt8.ofNat (w / 4096 % 16 + 224), lastByte (w / 64), lastByte w] := by
  have split (n : Nat) : n / 4096 = n / 64 / 64 := by omega
  rw [split v, split w]
  exact below_concat (fun n => [UInt8.ofNat (n / 64 % 16 + 224), lastByte n]) less fun lead =>
    below_concat (fun n => [UInt8.ofNat (n % 16 + 224)]) lead fun lead =>
      .here (ofNat_lt (by omega) (by omega))

theorem below_four {v w : Nat} (less : v < w) (fits : w < 0x200000) :
    Below [UInt8.ofNat (v / 262144 % 8 + 240), lastByte (v / 4096), lastByte (v / 64), lastByte v]
      [UInt8.ofNat (w / 262144 % 8 + 240), lastByte (w / 4096), lastByte (w / 64), lastByte w] := by
  have split (n : Nat) : n / 4096 = n / 64 / 64 := by omega
  have split' (n : Nat) : n / 262144 = n / 64 / 64 / 64 := by omega
  rw [split v, split w, split' v, split' w]
  exact below_concat (fun n => [UInt8.ofNat (n / 64 / 64 % 8 + 240), lastByte (n / 64),
    lastByte n]) less fun lead =>
      below_concat (fun n => [UInt8.ofNat (n / 64 % 8 + 240), lastByte n]) lead fun lead =>
        below_concat (fun n => [UInt8.ofNat (n % 8 + 240)]) lead fun lead =>
          .here (ofNat_lt (by omega) (by omega))

theorem below_encode {c d : Char} (less : c < d) :
    Below (String.utf8EncodeChar c) (String.utf8EncodeChar d) := by
  have numbers : c.val.toNat < d.val.toNat := less
  have last : d.val.toNat < 0x110000 := by
    rcases d.valid with h | h <;> omega
  simp only [String.utf8EncodeChar]
  generalize c.val.toNat = v at *
  generalize d.val.toNat = w at *
  -- longer encodings begin with greater bytes
  split_ifs <;> first
    | omega
    | exact .here (ofNat_lt (by omega) (by omega))
    | exact below_two numbers (by omega)
    | exact below_three numbers (by omega)
    | exact below_four numbers (by omega)

def bytes (s : String) : List UInt8 := s.toUTF8.data.toList

theorem bytes_eq (s : String) : bytes s = s.toList.flatMap String.utf8EncodeChar := by
  rw [bytes, String.toUTF8_eq_toByteArray, ← String.ofList_toList (s := s)]
  simp only [String.toByteArray_ofList, String.toList_ofList, List.utf8Encode,
    List.data_toByteArray]

theorem encode_ne_nil (c : Char) : String.utf8EncodeChar c ≠ [] := by
  simp only [String.utf8EncodeChar]
  split_ifs <;> exact List.cons_ne_nil _ _

theorem encode_lt {l m : List Char} (less : l < m) :
    l.flatMap String.utf8EncodeChar < m.flatMap String.utf8EncodeChar := by
  induction l generalizing m with
  | nil =>
    cases m with
    | nil => exact absurd less (List.lt_irrefl _)
    | cons d m =>
      obtain ⟨x, rest, code⟩ := List.exists_cons_of_ne_nil (encode_ne_nil d)
      rw [List.flatMap_nil, List.flatMap_cons, code]
      exact List.nil_lt_cons _ _
  | cons c l ih =>
    cases m with
    | nil => cases less
    | cons d m =>
      rw [List.flatMap_cons, List.flatMap_cons]
      rcases List.cons_lt_cons_iff.mp less with here | ⟨rfl, later⟩
      · exact (below_encode here).append_lt _ _
      · exact List.append_left_lt (ih later)

theorem lt_iff_bytes_lt {s t : String} : s < t ↔ bytes s < bytes t := by
  have forward {s t : String} (less : s < t) : bytes s < bytes t := by
    rw [bytes_eq, bytes_eq]
    exact encode_lt (String.lt_iff_toList_lt.mp less)
  refine ⟨forward, fun less => ?_⟩
  by_contra notLess
  rcases lt_or_eq_of_le (not_lt.mp notLess) with greater | rfl
  · exact List.lt_irrefl _ (List.lt_trans less (forward greater))
  · exact List.lt_irrefl _ less

end GridSweep.Text
