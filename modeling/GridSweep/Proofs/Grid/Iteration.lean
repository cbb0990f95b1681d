import GridSweep.Proofs.Grid.Counting
import GridSweep.Proofs.Grid.Named
import Mathlib.Logic.Function.Iterate

namespace GridSweep

/-- A kind of iterator: the item that a call for the next one gives, the iterator that it leaves, and
how many items are said to remain. -/
structure Iteration (γ α : Type) where
  item? : γ → Option α
  after : γ → γ
  remaining : γ → Nat

namespace Iteration

variable {γ α : Type}

/-- An iterator told by what the next call gives and leaves; one that has ended stays as it is. -/
def ofNext (next? : γ → Option (α × γ)) (remaining : γ → Nat) : Iteration γ α where
  item? c := (next? c).map Prod.fst
  after c := ((next? c).map Prod.snd).getD c
  remaining := remaining

/-- A list with the number of calls made so far. -/
def ofList (l : List α) : Iteration Nat α := ⟨(l[·]?), (· + 1), (l.length - ·)⟩

/-- What is done with one of the iterators at hand. -/
inductive Call where
  | next (i : Nat)
  | remaining (i : Nat)
  | copy (i : Nat)

inductive Answer (α : Type) where
  | item (a : Option α)
  | remaining (n : Nat)
  | copied

/-- The answer to a call, if there is such an iterator, and the iterators at hand after it. A copy
comes behind the others. -/
def answer (it : Iteration γ α) (hand : List γ) : Call → Option (Answer α) × List γ
  | .next i => (hand[i]?.map fun c => .item (it.item? c), hand.modify i it.after)
  | .remaining i => (hand[i]?.map fun c => .remaining (it.remaining c), hand)
  | .copy i => (hand[i]?.map fun _ => .copied, hand ++ hand[i]?.toList)

def answers (it : Iteration γ α) : List γ → List Call → List (Option (Answer α))
  | _, [] => []
  | hand, call :: calls => (it.answer hand call).1 :: it.answers (it.answer hand call).2 calls

/-- The iterator goes through the list: after any number of calls for the next item it tells how many
remain and gives one if any does; and whatever is asked of it and its copies, in any order, each
answers by the calls made of it and, before it was copied, of what it is a copy of. -/
structure Lists (it : Iteration γ α) (start : γ) (l : List α) : Prop where
  remaining : ∀ k, it.remaining (it.after^[k] start) = l.length - k
  isSome : ∀ k, (it.item? (it.after^[k] start)).isSome ↔ k + 1 ≤ l.length
  answers : ∀ calls, it.answers [start] calls = (ofList l).answers [0] calls

variable {it : Iteration γ α} {start : γ} {l : List α}

theorem answer_map (item : ∀ k, it.item? (it.after^[k] start) = l[k]?)
    (remaining : ∀ k, it.remaining (it.after^[k] start) = l.length - k) (made : List Nat)
    (call : Call) :
    it.answer (made.map (it.after^[·] start)) call =
      (((ofList l).answer made call).1,
        ((ofList l).answer made call).2.map (it.after^[·] start)) := by
  cases call with
  | next i =>
    have stepped : (made.map (it.after^[·] start)).modify i it.after =
        (made.modify i (· + 1)).map (it.after^[·] start) := by
      refine List.ext_getElem? fun j => ?_
      rw [List.getElem?_modify, List.getElem?_map, List.getElem?_map, List.getElem?_modify]
      cases made[j]? with
      | none => rfl
      | some k =>
        by_cases here : i = j
        · simp [here, Function.iterate_succ_apply']
        · simp [here]
    simp only [answer, ofList, List.getElem?_map, Option.map_map, Function.comp_def, item, stepped]
  | remaining i =>
    simp only [answer, ofList, List.getElem?_map, Option.map_map, Function.comp_def, remaining]
  | copy i =>
    simp only [answer, List.getElem?_map, Option.map_map, Function.comp_def, List.map_append,
      Option.toList_map]

theorem answers_map (item : ∀ k, it.item? (it.after^[k] start) = l[k]?)
    (remaining : ∀ k, it.remaining (it.after^[k] start) = l.length - k) (made : List Nat)
    (calls : List Call) :
    it.answers (made.map (it.after^[·] start)) calls = (ofList l).answers made calls := by
  induction calls generalizing made with
  | nil => rfl
  | cons call calls ih =>
    rw [answers, answers, answer_map item remaining, ih]

theorem lists_of (item : ∀ k, it.item? (it.after^[k] start) = l[k]?)
    (remaining : ∀ k, it.remaining (it.after^[k] start) = l.length - k) : it.Lists start l where
  remaining := remaining
  isSome k := by
    rw [item k, isSome_getElem?]
    exact Iff.rfl
  answers := answers_map item remaining [0]

end Iteration

namespace Cursor

def iteration : Iteration Cursor Objective := .ofNext next? remaining

theorem after_iteration (c : Cursor) : iteration.after c = c.after := by
  obtain ⟨planes, odometer, remaining⟩ := c
  cases planes <;> rfl

theorem iterate_after (k : Nat) (c : Cursor) : iteration.after^[k] c = c.drop k := by
  induction k generalizing c with
  | zero => rfl
  | succ k ih => rw [Function.iterate_succ_apply, ih, after_iteration, drop_succ]

/-- The number kept beside the odometer is that of the objectives to come, after a call as before. -/
theorem remaining_after {c : Cursor} (h : c.Sound) (exact : c.remaining = c.coming.length) :
    c.after.remaining = c.after.coming.length := by
  rcases coming_of_next? h with ⟨-, -, still⟩ | ⟨o, taken, coming⟩
  · rw [still, exact]
  · have less : c.after.remaining = c.remaining - 1 := by
      obtain ⟨_ | ⟨p, rest⟩, odometer, remaining⟩ := c
      · cases taken
      · simp only [after]
        split <;> rfl
    rw [less, exact, coming, List.length_cons, Nat.add_sub_cancel]

theorem remaining_drop {c : Cursor} (h : c.Sound) (exact : c.remaining = c.coming.length) (k : Nat) :
    (c.drop k).remaining = c.coming.length - k := by
  have kept : (c.drop k).remaining = (c.drop k).coming.length := by
    induction k generalizing c with
    | zero => exact exact
    | succ k ih =>
      rw [drop_succ]
      exact ih h.after (remaining_after h exact)
  rw [kept, (coming_drop h k).2, List.length_drop]

end Cursor

namespace NamedCursor

def iteration : Iteration NamedCursor (String × Objective) :=
  .ofNext next? fun c => c.cursor.remaining

theorem after_iteration (c : NamedCursor) : iteration.after c = c.after := by
  obtain ⟨⟨planes, odometer, remaining⟩, model, index⟩ := c
  cases planes <;> rfl

theorem iterate_after (k : Nat) (c : NamedCursor) : iteration.after^[k] c = c.drop k := by
  induction k generalizing c with
  | zero => rfl
  | succ k ih => rw [Function.iterate_succ_apply, ih, after_iteration, drop_succ]

theorem cursor_after (c : NamedCursor) : c.after.cursor = c.cursor.after := by
  obtain ⟨⟨planes, odometer, remaining⟩, model, index⟩ := c
  cases planes <;> rfl

theorem cursor_drop (k : Nat) (c : NamedCursor) : (c.drop k).cursor = c.cursor.drop k := by
  induction k generalizing c with
  | zero => rfl
  | succ k ih => rw [drop_succ, ih, cursor_after, Cursor.drop_succ]

end NamedCursor

namespace Domain

variable {d : Domain}

theorem Declared.lists (declared : d.Declared) (fits : d.total ≤ Count.limit) :
    Cursor.iteration.Lists (.ofDomain d) d.objectives := by
  have sound := (NamedCursor.sound_ofDomain declared).cursor
  have coming : (Cursor.ofDomain d).coming = d.objectives :=
    Cursor.coming_fresh sound.inhabited d.count
  have exact : (Cursor.ofDomain d).remaining = (Cursor.ofDomain d).coming.length := by
    rw [coming, length_objectives, Cursor.ofDomain, count_eq, length_objectives]
    exact Nat.min_eq_left fits
  refine Iteration.lists_of (fun k => ?_) fun k => ?_
  · rw [Cursor.iterate_after, ← coming]
    exact Cursor.next?_drop sound k
  · rw [Cursor.iterate_after, ← coming]
    exact Cursor.remaining_drop sound exact k

theorem Declared.lists_named (declared : d.Declared) (fits : d.total ≤ Count.limit) :
    NamedCursor.iteration.Lists (.ofDomain d) d.named := by
  refine Iteration.lists_of (fun k => ?_) fun k => ?_
  · rw [NamedCursor.iterate_after]
    exact NamedCursor.next?_drop declared k
  · rw [NamedCursor.iterate_after, length_named, ← length_objectives,
      ← (declared.lists fits).remaining k, Cursor.iterate_after]
    exact congrArg Cursor.remaining (NamedCursor.cursor_drop k _)

/-- Counts are the sums and products of the cardinalities as far as 64 bits reach. Where they reach,
both iterators go through their lists, with as many items as the sum says. -/
theorem count_and_iterate (d : Domain) (declared : d.Declared) :
    d.count = min d.total (2 ^ 64 - 1) ∧
    (∀ model, d.countFor model = (d.parameters? model).map fun p =>
      min (Parameters.product p.grid) (2 ^ 64 - 1)) ∧
    (d.total ≤ 2 ^ 64 - 1 →
      d.objectives.length = d.total ∧ Cursor.iteration.Lists (.ofDomain d) d.objectives ∧
      d.named.length = d.total ∧ NamedCursor.iteration.Lists (.ofDomain d) d.named) := by
  refine ⟨?_, fun model => ?_, fun fits => ⟨d.length_objectives, declared.lists fits,
    d.length_named, declared.lists_named fits⟩⟩
  · rw [count_eq, length_objectives]
    rfl
  · exact congrArg (Option.map · (d.parameters? model)) (funext fun p => p.count_eq)

/-- Seven objectives: the fifth call gives one and leaves two, a ninth gives none and leaves none, and a
copy taken after two calls comes to its own ends. -/
theorem count_and_iterate_twoModels :
    twoModels.Declared ∧ twoModels.total ≤ 2 ^ 64 - 1 ∧ twoModels.count = 7 ∧
    twoModels.countFor "m" = some 6 ∧
    Cursor.iteration.remaining (Cursor.iteration.after^[5] (.ofDomain twoModels)) = 2 ∧
    (Cursor.iteration.item? (Cursor.iteration.after^[4] (.ofDomain twoModels))).isSome = true ∧
    (NamedCursor.iteration.item? (NamedCursor.iteration.after^[8] (.ofDomain twoModels))).isSome =
      false ∧
    NamedCursor.iteration.answers [.ofDomain twoModels]
        [.next 0, .next 0, .copy 0, .next 0, .remaining 0, .remaining 1, .next 1] =
      [some (.item twoModels.named[0]?), some (.item twoModels.named[1]?), some .copied,
        some (.item twoModels.named[2]?), some (.remaining 4), some (.remaining 5),
        some (.item twoModels.named[2]?)] := by
  have seven : twoModels.total = 7 := rfl
  have fits : twoModels.total ≤ 2 ^ 64 - 1 := by decide
  obtain ⟨count, each, lists⟩ := count_and_iterate twoModels declared_twoModels
  obtain ⟨length, plain, lengthNamed, named⟩ := lists fits
  rw [seven] at count length lengthNamed
  refine ⟨declared_twoModels, fits, count, each "m", ?_, (plain.isSome 4).mpr (by omega), ?_, ?_⟩
  · rw [plain.remaining, length]
  · rw [Bool.eq_false_iff, Ne, named.isSome]
    omega
  · rw [named.answers]
    simp only [Iteration.answers, Iteration.answer, Iteration.ofList, lengthNamed]
    rfl

end Domain

end GridSweep
