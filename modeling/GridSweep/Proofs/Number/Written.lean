import GridSweep.Number.Numeral
import GridSweep.Number.Layout

namespace GridSweep

namespace Numeral

def digitsOf (n : Nat) : List Nat := (Nat.toDigits 10 n).map fun c => c.toNat - '0'.toNat

def digitChars (digits : List Nat) : List Char := digits.map Nat.digitChar

def fractionChars : Option (List Nat) → List Char
  | none => []
  | some digits => '.' :: digitChars digits

def exponentChars : Option (Bool × List Nat) → List Char
  | none => []
  | some (down, digits) => 'e' :: (if down then '-' else '+') :: digitChars digits

def unsigned (n : Numeral) : List Char :=
  digitChars n.whole ++ (fractionChars n.fraction ++ exponentChars n.exponent)

def signChars (negative : Bool) : List Char := if negative then ['-'] else []

/-- The numeral as it is written, an exponent always with its sign. -/
def chars (n : Numeral) : List Char := signChars n.negative ++ n.unsigned

def AllDigits (digits : List Nat) : Prop := ∀ d ∈ digits, d < 10

/-- The numeral belongs to the JSON grammar: there are digits wherever digits are due, and no zero
stands before other digits. -/
structure Proper (n : Numeral) : Prop where
  whole : n.whole = [0] ∨ ∃ first rest, n.whole = first :: rest ∧ first ≠ 0
  wholeDigits : AllDigits n.whole
  fraction : ∀ digits, n.fraction = some digits → digits ≠ [] ∧ AllDigits digits
  exponent : ∀ e, n.exponent = some e → e.2 ≠ [] ∧ AllDigits e.2

theorem allDigits_append {l m : List Nat} (hl : AllDigits l) (hm : AllDigits m) :
    AllDigits (l ++ m) := by
  intro d hd
  rcases List.mem_append.mp hd with hd | hd
  · exact hl d hd
  · exact hm d hd

theorem digitsOf_of_lt {n : Nat} (h : n < 10) : digitsOf n = [n] := by
  rw [digitsOf, Nat.toDigits_of_lt_base h, List.map_singleton]
  exact congrArg (fun d => [d]) (Nat.toNat_digitChar_sub_48_of_lt_ten h)

theorem digitsOf_of_le {n : Nat} (h : 10 ≤ n) : digitsOf n = digitsOf (n / 10) ++ [n % 10] := by
  have low : n % 10 < 10 := Nat.mod_lt n (by decide)
  rw [digitsOf, Nat.toDigits_of_base_le (by decide) h, List.map_append, List.map_singleton]
  exact congrArg (fun d => digitsOf (n / 10) ++ [d]) (Nat.toNat_digitChar_sub_48_of_lt_ten low)

theorem allDigits_digitsOf (n : Nat) : AllDigits (digitsOf n) := by
  induction n using Nat.strongRecOn with
  | ind n ih =>
    by_cases h : n < 10
    · rw [digitsOf_of_lt h]
      intro d hd
      rw [List.mem_singleton] at hd
      exact hd ▸ h
    · have ten : 10 ≤ n := Nat.le_of_not_lt h
      rw [digitsOf_of_le ten]
      refine allDigits_append (ih _ (Nat.div_lt_self (by omega) (by decide))) fun d hd => ?_
      rw [List.mem_singleton] at hd
      exact hd ▸ Nat.mod_lt n (by decide)

theorem digitChars_digitsOf (n : Nat) : digitChars (digitsOf n) = Nat.toDigits 10 n := by
  induction n using Nat.strongRecOn with
  | ind n ih =>
    by_cases h : n < 10
    · rw [digitsOf_of_lt h, Nat.toDigits_of_lt_base h]
      rfl
    · have ten : 10 ≤ n := Nat.le_of_not_lt h
      have shorter := ih _ (Nat.div_lt_self (by omega : 0 < n) (by decide : 1 < 10))
      rw [digitChars] at shorter ⊢
      rw [digitsOf_of_le ten, List.map_append, shorter, Nat.toDigits_of_base_le (by decide) ten]
      rfl

theorem length_digitsOf (n : Nat) : (digitsOf n).length = (Nat.toDigits 10 n).length := by
  rw [digitsOf, List.length_map]

theorem digitsOf_ne_nil (n : Nat) : digitsOf n ≠ [] := by
  intro none
  rw [digitsOf, List.map_eq_nil_iff] at none
  exact Nat.toDigits_ne_nil none

theorem digitsOf_of_pos {n : Nat} (h : 0 < n) :
    ∃ first rest, digitsOf n = first :: rest ∧ first ≠ 0 := by
  induction n using Nat.strongRecOn with
  | ind n ih =>
    by_cases small : n < 10
    · exact ⟨n, [], digitsOf_of_lt small, by omega⟩
    · have ten : 10 ≤ n := Nat.le_of_not_lt small
      obtain ⟨first, rest, shorter, nonzero⟩ :=
        ih (n / 10) (Nat.div_lt_self h (by decide)) (by omega)
      exact ⟨first, rest ++ [n % 10], by rw [digitsOf_of_le ten, shorter]; rfl, nonzero⟩

theorem value_append (l : List Nat) (d : Nat) : value (l ++ [d]) = value l * 10 + d := by
  rw [value, List.foldl_append]
  rfl

theorem value_digitsOf (n : Nat) : value (digitsOf n) = n := by
  induction n using Nat.strongRecOn with
  | ind n ih =>
    by_cases h : n < 10
    · rw [digitsOf_of_lt h]
      exact Nat.zero_add n
    · have ten : 10 ≤ n := Nat.le_of_not_lt h
      rw [digitsOf_of_le ten, value_append, ih _ (Nat.div_lt_self (by omega) (by decide))]
      omega

theorem le_foldl_digits (l : List Nat) (v : Nat) : v ≤ l.foldl (fun v d => v * 10 + d) v := by
  induction l generalizing v with
  | nil => exact Nat.le_refl v
  | cons d rest ih =>
    have more := ih (v * 10 + d)
    rw [List.foldl_cons]
    omega

theorem fitting_of_lt {bound : Nat} (l : List Nat) (v : Nat)
    (h : l.foldl (fun v d => v * 10 + d) v < bound) :
    fitting bound v l = (l.foldl (fun v d => v * 10 + d) v, []) := by
  induction l generalizing v with
  | nil => rfl
  | cons d rest ih =>
    rw [List.foldl_cons] at h ⊢
    have fits : v * 10 + d < bound := Nat.lt_of_le_of_lt (le_foldl_digits rest _) h
    rw [fitting, if_pos fits]
    exact ih _ h

theorem proper_whole_digitsOf (n : Nat) :
    digitsOf n = [0] ∨ ∃ first rest, digitsOf n = first :: rest ∧ first ≠ 0 := by
  rcases Nat.eq_zero_or_pos n with rfl | positive
  · exact .inl (digitsOf_of_lt (by decide))
  · exact .inr (digitsOf_of_pos positive)

end Numeral

namespace Decimal

theorem trimmed_pos (n : Nat) (d : Decimal) (h : 0 < d.digits) : 0 < (trimmed n d).digits := by
  induction n generalizing d with
  | zero => exact h
  | succ n ih =>
    rw [trimmed]
    split
    · rename_i whole
      exact ih _ (by simp only; omega)
    · exact h

theorem Interval.shift_low_pos {i : Interval} (h : 0 < i.low) (exponent : Int) :
    0 < (i.shift exponent).low := by
  rw [Interval.shift]
  split
  · exact h
  · exact Nat.mul_pos h (Nat.pow_pos (by decide))

theorem Interval.nearest?_pos {i : Interval} {tie : Tie} {v : Nat} (h : 0 < i.low)
    (found : i.nearest? tie = some v) : 0 < v := by
  have inside {num : Nat} (holds : i.holds num = true) : 0 < num := by
    rw [Interval.holds] at holds
    split at holds <;> simp at holds <;> omega
  have positive {n : Nat} (holds : i.holds (n * i.denominator) = true) : 0 < n :=
    Nat.pos_of_mul_pos_right (inside holds)
  rw [Interval.nearest?] at found
  simp only [Bool.and_eq_true] at found
  split at found
  · rename_i both
    split at found
    · exact Option.some.inj found ▸ positive both.1
    · split at found
      · exact Option.some.inj found ▸ Nat.succ_pos _
      · obtain rfl := Option.some.inj found
        have floor := positive both.1
        cases tie with
        | toEven => exact Nat.lt_of_lt_of_le floor (Nat.le_add_right _ _)
        | up => exact Nat.succ_pos _
  · split at found
    · rename_i below
      exact Option.some.inj found ▸ positive below
    · split at found
      · exact Option.some.inj found ▸ Nat.succ_pos _
      · cases found

theorem search_pos {i : Interval} {tie : Tie} (h : 0 < i.low) (n : Nat) (exponent : Int)
    {d : Decimal} (found : search i tie n exponent = some d) : 0 < d.digits := by
  induction n generalizing exponent with
  | zero => cases found
  | succ n ih =>
    rw [search] at found
    split at found
    · rename_i digits hit
      exact Option.some.inj found ▸ Interval.nearest?_pos (Interval.shift_low_pos h _) hit
    · exact ih _ found

end Decimal

namespace Double

theorem significand_pos {x : Double} (h : x.isZero = false) : 0 < x.significand := by
  rw [significand]
  split
  · rename_i low
    simp only [isZero, low, beq_self_eq_true, Bool.true_and, beq_eq_false_iff_ne] at h
    exact Nat.pos_of_ne_zero h
  · omega

end Double

theorem Decimal.exact_pos {x : Double} (h : x.isZero = false) : 0 < (Decimal.exact x).digits := by
  have magnitude : 0 < x.magnitude := by
    rw [Double.magnitude, Nat.shiftLeft_eq]
    exact Nat.mul_pos (Double.significand_pos h) (Nat.pow_pos (by decide))
  have scaled (n : Nat) : 0 < x.magnitude * Nat.pow 5 n :=
    Nat.mul_pos magnitude (Nat.pow_pos (by decide))
  rw [Decimal.exact]
  apply scaled

theorem Decimal.shortest_pos {x : Double} (h : x.isZero = false) (tie : Tie) :
    0 < (Decimal.shortest x tie).digits := by
  have positive := Double.significand_pos h
  have quarter : 0 < 1 <<< (x.unit - 1076) := by
    rw [Nat.one_shiftLeft]
    exact Nat.pow_pos (by decide)
  have low : 0 < (Decimal.interval x).low := by
    unfold Decimal.interval
    exact Nat.mul_pos (by split <;> omega) quarter
  rw [Decimal.shortest]
  refine Decimal.trimmed_pos _ _ ?_
  cases found : Decimal.search (Decimal.interval x) tie 24
      (((Decimal.interval x).high.log2 - (Decimal.interval x).denominator.log2) * 30103 / 100000 + 2) with
  | some d => exact Decimal.search_pos low _ _ found
  | none => exact Decimal.exact_pos h

namespace Layout

open Numeral

/-- The numeral of digits with the point after the first `point` of them. -/
def placed (negative : Bool) (digits : List Nat) (point : Int) : Numeral :=
  if (digits.length : Int) ≤ point then
    ⟨negative, digits ++ List.replicate (point.toNat - digits.length) 0, some [0], none⟩
  else if 0 < point then
    ⟨negative, digits.take point.toNat, some (digits.drop point.toNat), none⟩
  else ⟨negative, [0], some (List.replicate (-point).toNat 0 ++ digits), none⟩

theorem negative_placed (negative : Bool) (digits : List Nat) (point : Int) :
    (placed negative digits point).negative = negative := by
  unfold placed
  split
  · rfl
  · split <;> rfl

/-- The numeral with one digit before the point and an exponent. -/
def pointed (negative : Bool) (digits : List Nat) (exponent : Int) : Numeral :=
  ⟨negative, digits.take 1, if digits.length ≤ 1 then none else some (digits.drop 1),
    some (decide (exponent < 0), digitsOf exponent.natAbs)⟩

def numeralOf (negative : Bool) (d : Decimal) : Numeral :=
  if json.positional (d.exponent + (digitsOf d.digits).length - 1) then
    placed negative (digitsOf d.digits) (d.exponent + (digitsOf d.digits).length - 1 + 1)
  else pointed negative (digitsOf d.digits) (d.exponent + (digitsOf d.digits).length - 1)

def numeral (x : Double) : Numeral :=
  if x.isZero then ⟨x.negative, [0], some [0], none⟩
  else numeralOf x.negative (Decimal.shortest x .toEven)

theorem digitChars_zeros (n : Nat) : digitChars (List.replicate n 0) = (zeros n).toList := by
  rw [digitChars, List.map_replicate, zeros, String.toList_ofList]
  rfl

theorem digitChars_append (l m : List Nat) : digitChars (l ++ m) = digitChars l ++ digitChars m :=
  List.map_append

theorem toList_sign (negative : Bool) :
    (if negative then "-" else "").toList = signChars negative := by
  cases negative <;> rfl

theorem toList_place (negative : Bool) (digits : List Nat) (point : Int) :
    (json.place (digitChars digits) point).toList = (placed negative digits point).unsigned := by
  have count : (digitChars digits).length = digits.length := List.length_map _
  rw [place, placed, count]
  split
  · rw [unsigned, digitChars_append, digitChars_zeros, String.toList_append, String.toList_append,
      String.toList_ofList]
    rfl
  · split
    · simp [unsigned, digitChars, fractionChars, exponentChars, List.map_take, List.map_drop]
    · rw [unsigned, fractionChars, digitChars_append, digitChars_zeros, String.toList_append,
        String.toList_append, String.toList_ofList]
      simp [exponentChars, digitChars]

theorem toList_scientific (negative : Bool) (digits : List Nat) (exponent : Int)
    (nonempty : digits ≠ []) :
    (scientific (digitChars digits) exponent).toList = (pointed negative digits exponent).unsigned := by
  have shown : (toString exponent.natAbs).toList = digitChars (digitsOf exponent.natAbs) := by
    rw [digitChars_digitsOf]
    exact Nat.toList_repr
  have sign : (if exponent < 0 then "-" else "+").toList =
      [if decide (exponent < 0) then '-' else '+'] := by
    by_cases h : exponent < 0 <;> simp [h]
  unfold scientific
  rw [pointed, unsigned, String.toList_append, String.toList_append, String.toList_append, shown,
    sign]
  match digits, nonempty with
  | [d], _ => simp [digitChars, fractionChars, exponentChars]
  | d :: e :: rest, _ => simp [digitChars, fractionChars, exponentChars]

theorem negative_numeralOf (negative : Bool) (d : Decimal) :
    (numeralOf negative d).negative = negative := by
  unfold numeralOf
  split
  · exact negative_placed _ _ _
  · rfl

theorem toList_decimal (negative : Bool) (d : Decimal) :
    (if json.positional (d.exponent + (Nat.toDigits 10 d.digits).length - 1) then
        json.place (Nat.toDigits 10 d.digits) (d.exponent + (Nat.toDigits 10 d.digits).length - 1 + 1)
      else scientific (Nat.toDigits 10 d.digits)
        (d.exponent + (Nat.toDigits 10 d.digits).length - 1)).toList =
      (numeralOf negative d).unsigned := by
  rw [← length_digitsOf, ← digitChars_digitsOf, numeralOf]
  split
  · exact toList_place _ _ _
  · exact toList_scientific _ _ _ (digitsOf_ne_nil _)

theorem toList_finite (x : Double) : (json.finite x).toList = (numeral x).chars := by
  have signed (n : Numeral) (h : n.negative = x.negative) (body : String)
      (same : body.toList = n.unsigned) :
      ((if x.negative then "-" else "") ++ body).toList = n.chars := by
    rw [String.toList_append, toList_sign, same, Numeral.chars, h]
  unfold finite numeral
  by_cases zero : x.isZero
  · rw [if_pos zero, if_pos zero, String.append_assoc]
    exact signed _ rfl _ rfl
  · rw [if_neg zero, if_neg zero]
    exact signed _ (negative_numeralOf _ _) _ (toList_decimal _ _)

theorem allDigits_zeros (n : Nat) : AllDigits (List.replicate n 0) := by
  intro d hd
  rw [(List.mem_replicate.mp hd).2]
  decide

theorem proper_placed (negative : Bool) {digits : List Nat} (allDigits : AllDigits digits)
    (leading : ∃ first rest, digits = first :: rest ∧ first ≠ 0) (point : Int) :
    (placed negative digits point).Proper := by
  obtain ⟨first, rest, rfl, nonzero⟩ := leading
  rw [placed]
  split
  · refine ⟨.inr ⟨first, _, rfl, nonzero⟩, allDigits_append allDigits (allDigits_zeros _), ?_, ?_⟩
    · rintro _ ⟨⟩
      exact ⟨List.cons_ne_nil _ _, allDigits_zeros 1⟩
    · rintro _ ⟨⟩
  · rename_i short
    split
    · rename_i positive
      obtain ⟨n, size⟩ : ∃ n, point.toNat = n + 1 := ⟨point.toNat - 1, by omega⟩
      have left : point.toNat < (first :: rest).length := by omega
      refine ⟨.inr ⟨first, rest.take n, by rw [size]; rfl, nonzero⟩,
        fun d hd => allDigits d (List.mem_of_mem_take hd), ?_, ?_⟩
      · rintro _ ⟨⟩
        exact ⟨fun none => Nat.not_le_of_lt left (List.drop_eq_nil_iff.mp none),
          fun d hd => allDigits d (List.mem_of_mem_drop hd)⟩
      · rintro _ ⟨⟩
    · refine ⟨.inl rfl, allDigits_zeros 1, ?_, ?_⟩
      · rintro _ ⟨⟩
        exact ⟨by simp, allDigits_append (allDigits_zeros _) allDigits⟩
      · rintro _ ⟨⟩

theorem proper_pointed (negative : Bool) {digits : List Nat} (allDigits : AllDigits digits)
    (leading : ∃ first rest, digits = first :: rest ∧ first ≠ 0) (exponent : Int) :
    (pointed negative digits exponent).Proper := by
  obtain ⟨first, rest, rfl, nonzero⟩ := leading
  refine ⟨.inr ⟨first, [], rfl, nonzero⟩, fun d hd => allDigits d (List.mem_of_mem_take hd), ?_, ?_⟩
  · intro fraction h
    simp only [pointed] at h
    split at h
    · cases h
    · rename_i long
      obtain rfl := Option.some.inj h
      exact ⟨fun none => long (List.drop_eq_nil_iff.mp none),
        fun d hd => allDigits d (List.mem_of_mem_drop hd)⟩
  · rintro _ ⟨⟩
    exact ⟨digitsOf_ne_nil _, allDigits_digitsOf _⟩

theorem proper_numeralOf (negative : Bool) {d : Decimal} (positive : 0 < d.digits) :
    (numeralOf negative d).Proper := by
  have leading := digitsOf_of_pos positive
  unfold numeralOf
  split
  · exact proper_placed _ (allDigits_digitsOf _) leading _
  · exact proper_pointed _ (allDigits_digitsOf _) leading _

theorem proper_numeral (x : Double) : (numeral x).Proper := by
  unfold numeral
  split
  · refine ⟨.inl rfl, allDigits_zeros 1, ?_, ?_⟩
    · rintro _ ⟨⟩
      exact ⟨List.cons_ne_nil _ _, allDigits_zeros 1⟩
    · rintro _ ⟨⟩
  · rename_i nonzero
    exact proper_numeralOf _ (Decimal.shortest_pos (Bool.eq_false_iff.mpr nonzero) .toEven)

end Layout

namespace Number

open Numeral

def numeral : Number → Numeral
  | int i => ⟨decide (i < 0), digitsOf i.natAbs, none, none⟩
  | float x => Layout.numeral x

theorem text_eq_chars (n : Number) : n.text.toList = n.numeral.chars := by
  cases n with
  | float x => exact Layout.toList_finite x
  | int i =>
    have shown (k : Nat) : k.repr.toList = unsigned ⟨false, digitsOf k, none, none⟩ := by
      rw [unsigned, digitChars_digitsOf, Nat.toList_repr, fractionChars, exponentChars,
        List.append_nil, List.append_nil]
    rw [text, Int.toString_eq_repr, Int.repr_eq_if, numeral, Numeral.chars]
    by_cases negative : i < 0
    · have size : (-i).toNat = i.natAbs := by omega
      rw [if_neg (Int.not_le.mpr negative), size, String.toList_append, shown]
      simp [negative, signChars, unsigned]
    · have size : i.toNat = i.natAbs := by omega
      rw [if_pos (Int.not_lt.mp negative), size, shown]
      simp [negative, signChars, unsigned]

theorem proper_numeral (n : Number) : n.numeral.Proper := by
  cases n with
  | float x => exact Layout.proper_numeral x
  | int i =>
    refine ⟨proper_whole_digitsOf _, allDigits_digitsOf _, ?_, ?_⟩
    · rintro _ ⟨⟩
    · rintro _ ⟨⟩

def Fits (i : Int) : Prop := -0x8000000000000000 ≤ i ∧ i ≤ 0xffffffffffffffff

theorem number?_numeral_int {i : Int} (h : Fits i) : (int i).numeral.number? = some (int i) := by
  have folded : (digitsOf i.natAbs).foldl (fun v d => v * 10 + d) 0 = i.natAbs :=
    value_digitsOf i.natAbs
  obtain ⟨low, high⟩ := h
  have below : i.natAbs < 0x10000000000000000 := by omega
  have fitted := @fitting_of_lt 0x10000000000000000 (digitsOf i.natAbs) 0 (by rw [folded]; exact below)
  rw [folded] at fitted
  simp only [numeral, number?, fitted]
  by_cases negative : i < 0
  · have inside : ¬ (i.natAbs = 0 ∨ 0x8000000000000000 < i.natAbs) := by omega
    have back : -(i.natAbs : Int) = i := by omega
    simp only [negative, inside, back, decide_true, Bool.not_true, Option.isNone_none,
      List.isEmpty_nil, Bool.and_self, if_true, if_false, Bool.false_eq_true]
  · have back : (i.natAbs : Int) = i := by omega
    simp [negative, back]

end Number

end GridSweep
