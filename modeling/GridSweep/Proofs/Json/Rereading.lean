import GridSweep.Proofs.Decode.Failing
import GridSweep.Proofs.Json.Identity

/-!
Reading back what was written, whatever the numbers come to. The text of a floating-point number is
not always read as that number, and not always as any: `Json.reread` is the value that the text of a
value stands for. The text is read as the normal form of that, or not at all when it nests too deep or
a numeral in it is out of range (`Json.parse?_pretty_of_parsable`, `Json.parse?_pretty_of_not_parsable`).
Only a value that reads back is equal to what its text stands for (`Json.readsBack_of_same_reread`).
-/
namespace GridSweep

open Json Decode

/-- A comparison that goes through a list and its image side by side holds at each place. -/
theorem each_of_compared {α β : Type} {f : α → β} {same : List β → List α → Bool} {good : α → Prop}
    (heads : ∀ a rest, same (f a :: rest.map f) (a :: rest) = true →
      good a ∧ same (rest.map f) rest = true)
    {l : List α} (compared : same (l.map f) l = true) : ∀ a ∈ l, good a := by
  induction l with
  | nil => exact fun _ none => absurd none List.not_mem_nil
  | cons first rest ih =>
    obtain ⟨here, later⟩ := heads first rest compared
    exact List.forall_mem_cons.mpr ⟨here, ih later⟩

namespace Double

/-- The number that the text of a finite number stands for; infinity when that is out of range. -/
def reread (x : Double) : Double :=
  if x.isFinite then (Layout.numeral x).floating.getD (infinity false) else x

theorem isFinite_of_reread {x : Double} (finite : x.reread.isFinite = true) : x.isFinite = true := by
  unfold reread at finite
  split at finite
  · assumption
  · exact finite

theorem number?_numeral (x : Double) :
    (Number.float x).numeral.number? = (Layout.numeral x).floating.map .float := by
  have broken : ((Layout.numeral x).fraction.isNone && (Layout.numeral x).exponent.isNone) = false := by
    rcases Layout.numeral_not_whole x with fraction | exponent
    · simp [Option.isNone_eq_false_iff.mpr fraction]
    · simp [Option.isNone_eq_false_iff.mpr exponent]
  simp only [Number.numeral, Numeral.number?, broken, Bool.false_and, Bool.false_eq_true, if_false]

theorem readsBack_of_isZero {x : Double} (zero : x.isZero = true) : x.ReadsBack := by
  have both (negative : Bool) : (⟨negative, 0, 0⟩ : Double).ReadsBack := by
    cases negative
    · exact readsBack_of_numeral (by decide +kernel) (by decide +kernel)
    · exact readsBack_of_numeral (by decide +kernel) (by decide +kernel)
  obtain ⟨negative, exponent, fraction⟩ := x
  simp only [isZero, Bool.and_eq_true, beq_iff_eq] at zero
  obtain rfl : exponent = 0 := Fin.ext zero.1
  obtain rfl : fraction = 0 := Fin.ext zero.2
  exact both negative

/-- A number that equals what its text stands for is that number, not only a zero of the other sign. -/
theorem readsBack_of_same_reread {x : Double} (finite : x.reread.isFinite = true)
    (same : x.reread.same x = true) : x.ReadsBack := by
  have own := isFinite_of_reread finite
  cases zero : x.isZero with
  -- A zero is read back with its sign, which the comparison would overlook.
  | true => exact readsBack_of_isZero zero
  | false =>
    have images := (same_iff_unsigned (not_isNaN finite) (not_isNaN own)).mp same
    have exact_ : x.reread = x := by
      simp only [unsigned, zero, Bool.false_eq_true, if_false] at images
      split at images
      · rw [← images] at zero
        cases zero
      · exact images
    apply readsBack_of_numeral own
    rw [number?_numeral]
    rw [Double.reread, if_pos own] at exact_
    cases floating : (Layout.numeral x).floating with
    | none =>
      rw [floating, Option.getD_none] at exact_
      rw [← exact_] at own
      cases own
    | some y =>
      rw [floating, Option.getD_some] at exact_
      rw [exact_, Option.map_some]

end Double

namespace Json

def rereadNumber (n : Number) : Json :=
  match n.numeral.number? with
  | some (.int i) => num (.int i)
  | some (.float x) => ofDouble x
  | none => null

mutual

def reread : Json → Json
  | null => null
  | bool b => bool b
  | num n => rereadNumber n
  | str s => str s
  | arr items => arr (rereadItems items)
  | obj members => obj (rereadMembers members)

def rereadItems : List Json → List Json
  | [] => []
  | x :: rest => reread x :: rereadItems rest

def rereadMembers : List (String × Json) → List (String × Json)
  | [] => []
  | (name, x) :: rest => (name, reread x) :: rereadMembers rest

end

theorem rereadItems_eq_map (items : List Json) : rereadItems items = items.map reread := by
  induction items with
  | nil => rfl
  | cons x rest ih => rw [rereadItems, ih, List.map_cons]

theorem rereadMembers_eq_mapValues (members : List (String × Json)) :
    rereadMembers members = Entries.mapValues reread members := by
  induction members with
  | nil => rfl
  | cons e rest ih =>
    obtain ⟨name, x⟩ := e
    rw [rereadMembers, ih]
    rfl

theorem reread_ofDouble (x : Double) : (ofDouble x).reread = ofDouble x.reread := by
  by_cases finite : x.isFinite = true
  · rw [ofDouble, if_pos finite, Double.reread, if_pos finite]
    simp only [reread, rereadNumber, Double.number?_numeral]
    cases (Layout.numeral x).floating <;> rfl
  · rw [Double.reread, if_neg finite, ofDouble, if_neg finite]
    rfl

theorem rereadNumber_int {i : Int} (fits : Number.Fits i) :
    rereadNumber (.int i) = num (.int i) := by
  rw [rereadNumber, Number.number?_numeral_int fits]

theorem normal_rereadNumber (n : Number) : (rereadNumber n).normal = rereadNumber n := by
  unfold rereadNumber
  split
  · rfl
  · exact normal_ofDouble _
  · rfl

theorem held_rereadNumber {n : Number} (held : n.Held) :
    ∀ m ∈ (rereadNumber n).numbers, m.Held := by
  intro m hm
  cases n with
  | int i =>
    rw [rereadNumber_int held] at hm
    rwa [List.mem_singleton.mp hm]
  | float x =>
    rw [rereadNumber, Double.number?_numeral] at hm
    cases floating : (Layout.numeral x).floating with
    | none =>
      rw [floating] at hm
      cases hm
    | some y =>
      rw [floating] at hm
      exact held_ofDouble hm

theorem held_reread {j : Json} (held : ∀ n ∈ j.numbers, n.Held) :
    ∀ n ∈ j.reread.numbers, n.Held := by
  induction j using tree_induction with
  | null | bool b | str s =>
    intro n hn
    cases hn
  | num n => exact held_rereadNumber (held n List.mem_cons_self)
  | arr items ih =>
    intro n hn
    rw [reread, numbers, mem_itemNumbers, rereadItems_eq_map] at hn
    obtain ⟨_, there, hn⟩ := hn
    obtain ⟨x, hx, rfl⟩ := List.mem_map.mp there
    exact ih x hx (fun m hm => held m (mem_itemNumbers.mpr ⟨x, hx, hm⟩)) n hn
  | obj members ih =>
    intro n hn
    rw [reread, numbers, mem_memberNumbers, rereadMembers_eq_mapValues] at hn
    obtain ⟨_, there, hn⟩ := hn
    obtain ⟨e, he, rfl⟩ := List.mem_map.mp there
    exact ih e he (fun m hm => held m (mem_memberNumbers.mpr ⟨e, he, hm⟩)) n hn

theorem normal_reread (j : Json) : j.reread.normal = j.normal.reread := by
  induction j using tree_induction with
  | null | bool b | str s => rfl
  | num n => exact normal_rereadNumber n
  | arr items ih =>
    simp only [reread, normal, rereadItems_eq_map, normalItems_eq_map, List.map_map, arr.injEq]
    exact List.map_congr_left ih
  | obj members ih =>
    have turned : Entries.mapValues normal (Entries.mapValues reread members) =
        Entries.mapValues reread (Entries.mapValues normal members) := by
      simp only [Entries.mapValues, List.map_map]
      exact List.map_congr_left fun e he => by rw [Function.comp, Function.comp, ih e he]
    simp only [reread, normal, rereadMembers_eq_mapValues, normalMembers_eq_mapValues, turned,
      sorted, SortedTable.ofList_mapValues]

theorem Held.reread {j : Json} (held : j.Held) : j.reread.Held :=
  ⟨by rw [normal_reread, held.normal], held_reread held.numbers⟩

theorem same_of_sameItems_reread {items : List Json}
    (same : sameItems (rereadItems items) items = true) : ∀ x ∈ items, x.reread.same x = true := by
  rw [rereadItems_eq_map] at same
  refine each_of_compared (fun x rest both => ?_) same
  rwa [sameItems, Bool.and_eq_true] at both

theorem same_of_sameMembers_reread {members : List (String × Json)}
    (same : sameMembers (rereadMembers members) members = true) :
    ∀ e ∈ members, e.2.reread.same e.2 = true := by
  rw [rereadMembers_eq_mapValues] at same
  refine each_of_compared (fun e rest both => ?_) same
  rw [sameMembers, Bool.and_eq_true, Bool.and_eq_true] at both
  exact ⟨both.1.2, both.2⟩

theorem readsBack_of_same_reread {j : Json} (held : ∀ n ∈ j.numbers, n.Held)
    (same : j.reread.same j = true) : ∀ x, Number.float x ∈ j.numbers → x.ReadsBack := by
  induction j using tree_induction with
  | null | bool b | str s =>
    intro x hx
    cases hx
  | num n =>
    intro x hx
    obtain rfl := List.mem_singleton.mp hx
    have finite : x.isFinite = true := held _ hx
    have whole := reread_ofDouble x
    rw [ofDouble, if_pos finite] at whole
    rw [whole, ofDouble] at same
    split at same
    · rename_i finite'
      exact Double.readsBack_of_same_reread finite' same
    · cases same
  | arr items ih =>
    intro x hx
    obtain ⟨y, hy, hx⟩ := mem_itemNumbers.mp hx
    exact ih y hy (fun n hn => held n (mem_itemNumbers.mpr ⟨y, hy, hn⟩))
      (same_of_sameItems_reread same y hy) x hx
  | obj members ih =>
    intro x hx
    obtain ⟨e, he, hx⟩ := mem_memberNumbers.mp hx
    exact ih e he (fun n hn => held n (mem_memberNumbers.mpr ⟨e, he, hn⟩))
      (same_of_sameMembers_reread same e he) x hx

def Denotes (j : Json) : Prop := ∀ n ∈ j.numbers, n.numeral.number?.isSome = true

open Machine

section Reading

variable {c inner : Context}

theorem value_tree_num {n : Number} (denotes : n.numeral.number?.isSome = true) (c : Context) :
    value c (tree (num n)) = pure (rereadNumber n) := by
  rw [tree, numeralNode, rereadNumber]
  cases denoted : n.numeral.number? with
  | none =>
    rw [denoted] at denotes
    cases denotes
  | some m => cases m <;> rfl

theorem value_tree (j : Json) (denotes : j.Denotes) :
    ∀ c : Context, c.Admits j.depth → value c (tree j) = pure j.reread.normal := by
  induction j using tree_induction with
  | null | bool b | str s => exact fun _ _ => rfl
  | num n =>
    intro c _
    rw [value_tree_num (denotes n List.mem_cons_self), reread, normal_rereadNumber]
  | arr items ih =>
    intro c admits
    obtain ⟨inner, entered, _, deeper⟩ := admits.enter
    have each : ∀ x ∈ items, value inner (tree x) = pure x.reread.normal := fun x hx =>
      ih x hx (fun n hn => denotes n (mem_itemNumbers.mpr ⟨x, hx, hn⟩)) inner
        (deeper.mono (depth_le_itemsDepth hx))
    rw [tree, itemTrees_eq_map, value, entered, pure_bind, valueItems_map _ _ each, reread, normal,
      normalItems_eq_map, rereadItems_eq_map, List.map_map]
    rfl
  | obj members ih =>
    intro c admits
    obtain ⟨inner, entered, _, deeper⟩ := admits.enter
    have each : ∀ e ∈ members, value inner (tree e.2) = pure e.2.reread.normal := fun e he =>
      ih e he (fun n hn => denotes n (mem_memberNumbers.mpr ⟨e, he, hn⟩)) inner
        (deeper.mono (depth_le_membersDepth he))
    have images : normalMembers (rereadMembers members) =
        Entries.mapValues (fun x => x.reread.normal) members := by
      rw [normalMembers_eq_mapValues, rereadMembers_eq_mapValues]
      exact List.map_map
    rw [tree, memberTrees_eq_map, value, entered, pure_bind,
      valueMembers_map tree (fun x => x.reread.normal) each, reread, normal, images]
    rfl

theorem valueItems_eq_each (c : Context) (nodes : List Node) :
    valueItems c nodes = Decode.each value c nodes := by
  induction nodes with
  | nil => rfl
  | cons n rest ih => rw [valueItems, Decode.each, ih]

theorem fails_valueItems {nodes : List Node} {n : Node} (mem : n ∈ nodes)
    (fails : Fails (value c n)) : Fails (valueItems c nodes) := by
  rw [valueItems_eq_each]
  exact fails_each mem fails

theorem fails_valueMembers {nodes : List (Node × Node)} {e : Node × Node} (mem : e ∈ nodes)
    (fails : Fails (memberName c e.1) ∨ Fails (value c e.2)) : Fails (valueMembers c nodes) := by
  induction nodes with
  | nil => cases mem
  | cons first rest ih =>
    rw [valueMembers]
    rcases List.mem_cons.mp mem with rfl | later
    · rcases fails with unnamed | unread
      · exact unnamed.bind _
      · exact .after _ fun _ => unread.bind _
    · exact .after _ fun _ => .after _ fun _ => (ih later).bind _

/-- A place can be entered just when it admits one level more. -/
theorem enter_cases (c : Context) : ((∀ n, ¬c.Admits (n + 1)) ∧ Fails c.enter) ∨
    ∃ inner : Context, c.enter = pure inner ∧ ∀ n, inner.Admits n → c.Admits (n + 1) := by
  unfold Context.enter
  cases limited : c.limited with
  | false => exact .inr ⟨c, rfl, fun n _ => c.admits_of_unlimited limited (n + 1)⟩
  | true =>
    by_cases closed : c.depth = 0
    · refine .inl ⟨?_, ?_⟩
      · intro n admits
        have := admits limited
        omega
      · simp only [Bool.not_true, Bool.false_eq_true, if_false, closed, if_true]
        exact fails_throw _
    · refine .inr ⟨{ c with depth := c.depth - 1 }, by simp [closed], ?_⟩
      intro n admits _
      have : n ≤ c.depth - 1 := admits limited
      omega

/-- A value that nests deeper than its place admits cannot be read there, whatever its leaves become. -/
theorem fails_value_of_deep {shape : Json → Node}
    (seq : ∀ items, shape (arr items) = .seq (items.map shape))
    (map : ∀ members, shape (obj members) = .map (members.map fun e => (.str e.1, shape e.2)))
    (j : Json) : ∀ c : Context, ¬c.Admits j.depth → Fails (value c (shape j)) := by
  induction j using tree_induction with
  | null | bool b | str s | num n => exact fun c refused => absurd (fun _ => Nat.zero_le _) refused
  | arr items ih =>
    intro c refused
    rw [seq, value]
    rcases enter_cases c with ⟨_, closed⟩ | ⟨inner, entered, admits⟩
    · exact closed.bind _
    · rw [entered, pure_bind]
      -- The list itself adds one level, so one of its items nests too deep.
      obtain ⟨x, hx, deep⟩ : ∃ x ∈ items, ¬inner.Admits x.depth := by
        by_contra none
        push Not at none
        exact refused (admits _ fun limited => itemsDepth_le fun x hx => none x hx limited)
      exact (fails_valueItems (List.mem_map_of_mem hx) (ih x hx inner deep)).bind _
  | obj members ih =>
    intro c refused
    rw [map, value]
    rcases enter_cases c with ⟨_, closed⟩ | ⟨inner, entered, admits⟩
    · exact closed.bind _
    · rw [entered, pure_bind]
      obtain ⟨e, he, deep⟩ : ∃ e ∈ members, ¬inner.Admits e.2.depth := by
        by_contra none
        push Not at none
        exact refused (admits _ fun limited => membersDepth_le fun e he => none e he limited)
      exact (fails_valueMembers (List.mem_map_of_mem he) (.inr (ih e he inner deep))).bind _

theorem fails_value_tree_of_not_denotes (j : Json) (refused : ¬j.Denotes) :
    ∀ c, Fails (value c (tree j)) := by
  induction j using tree_induction with
  | null | bool b | str s =>
    refine absurd ?_ refused
    intro n hn
    cases hn
  | num n =>
    intro c
    cases denoted : n.numeral.number? with
    | none =>
      rw [tree, numeralNode, denoted]
      exact fails_throw _
    | some m =>
      refine absurd ?_ refused
      intro k hk
      rw [List.mem_singleton.mp hk, denoted]
      rfl
  | arr items ih =>
    intro c
    obtain ⟨x, hx, bad⟩ : ∃ x ∈ items, ¬x.Denotes := by
      by_contra none
      push Not at none
      refine refused fun n hn => ?_
      obtain ⟨x, hx, hn⟩ := mem_itemNumbers.mp hn
      exact none x hx n hn
    rw [tree, itemTrees_eq_map, value]
    refine .after _ fun inner => ?_
    exact (fails_valueItems (List.mem_map_of_mem hx) (ih x hx bad inner)).bind _
  | obj members ih =>
    intro c
    obtain ⟨e, he, bad⟩ : ∃ e ∈ members, ¬e.2.Denotes := by
      by_contra none
      push Not at none
      refine refused fun n hn => ?_
      obtain ⟨e, he, hn⟩ := mem_memberNumbers.mp hn
      exact none e he n hn
    rw [tree, memberTrees_eq_map, value]
    refine .after _ fun inner => ?_
    exact (fails_valueMembers (List.mem_map_of_mem he) (.inr (ih e he bad inner))).bind _

theorem fails_value_tree (j : Json) (c : Context) (refused : ¬(c.Admits j.depth ∧ j.Denotes)) :
    Fails (value c (tree j)) := by
  by_cases denotes : j.Denotes
  · refine fails_value_of_deep ?_ ?_ j c fun admits => refused ⟨admits, denotes⟩
    · exact fun items => by rw [tree, itemTrees_eq_map]
    · exact fun members => by rw [tree, memberTrees_eq_map]
  · exact fails_value_tree_of_not_denotes j denotes c

end Reading

/-- The text of the value can be read: it nests no deeper than texts may, and its numerals are in
range. -/
def Parsable (j : Json) : Prop := j.depth ≤ 127 ∧ j.Denotes

theorem parse?_pretty_eq (j : Json) :
    parse? j.pretty = (decodeTree value .text 0 (tree j)).toOption := by
  rw [parse?, decodeText, ofText_pretty_tree]
  simp only [Document.decode, if_true]
  cases decodeTree value .text 0 (tree j) <;> rfl

theorem parse?_pretty_of_parsable {j : Json} (parsable : j.Parsable) :
    parse? j.pretty = some j.reread.normal := by
  have read : value .text (tree j) = pure j.reread.normal :=
    value_tree j parsable.2 .text fun _ => parsable.1
  rw [parse?_pretty_eq, decodeTree_of_pure read]
  rfl

theorem parse?_pretty_of_not_parsable {j : Json} (refused : ¬j.Parsable) :
    parse? j.pretty = none := by
  have fails : Fails (value .text (tree j)) :=
    fails_value_tree j .text fun ⟨admits, denotes⟩ => refused ⟨admits rfl, denotes⟩
  obtain ⟨cause, failed⟩ := fails.decodeTree 0
  rw [parse?_pretty_eq, failed]
  rfl

end Json

end GridSweep
