import Mathlib.Data.List.Infix

namespace GridSweep

/-- What stands before and behind the last occurrence of the mark, if there is one. -/
def splitLast? (mark : List Char) : List Char → Option (List Char × List Char)
  | [] => if mark = [] then some ([], []) else none
  | c :: rest =>
    match splitLast? mark rest with
    | some (before, behind) => some (c :: before, behind)
    | none =>
      if mark <+: c :: rest then some ([], (c :: rest).drop mark.length) else none

/-- A text split at the last occurrence of a mark, which is in neither part. -/
def splitTextLast? (mark text : String) : Option (String × String) :=
  (splitLast? mark.toList text.toList).map fun parts =>
    (String.ofList parts.1, String.ofList parts.2)

variable {mark text before behind : List Char}

theorem eq_of_splitLast? (h : splitLast? mark text = some (before, behind)) :
    text = before ++ (mark ++ behind) := by
  induction text generalizing before with
  | nil =>
    unfold splitLast? at h
    split at h
    · rename_i empty
      cases h
      rw [empty]
      rfl
    · cases h
  | cons c rest ih =>
    unfold splitLast? at h
    split at h
    · rename_i earlier later found
      cases h
      rw [ih found, List.cons_append]
    · split at h
      · rename_i starts
        cases h
        exact (List.prefix_iff_eq_append.mp starts).symm
      · cases h

theorem exists_splitLast? (h : text = before ++ (mark ++ behind)) :
    ∃ before' behind', splitLast? mark text = some (before', behind') ∧
      before.length ≤ before'.length := by
  induction text generalizing before with
  | nil =>
    obtain ⟨rfl, both⟩ := List.append_eq_nil_iff.mp h.symm
    obtain ⟨rfl, -⟩ := List.append_eq_nil_iff.mp both
    exact ⟨[], [], rfl, Nat.le_refl _⟩
  | cons c rest ih =>
    unfold splitLast?
    cases before with
    | nil =>
      split
      · exact ⟨_, _, rfl, Nat.zero_le _⟩
      · have starts : mark <+: c :: rest := ⟨behind, h.symm⟩
        rw [if_pos starts]
        exact ⟨_, _, rfl, Nat.zero_le _⟩
    | cons d earlier =>
      obtain ⟨before', behind', found, later⟩ := ih (List.cons.inj h).2
      rw [found]
      exact ⟨_, _, rfl, Nat.succ_le_succ later⟩

theorem splitLast?_eq_some_iff :
    splitLast? mark text = some (before, behind) ↔
      text = before ++ (mark ++ behind) ∧
        ∀ before' behind', text = before' ++ (mark ++ behind') → before'.length ≤ before.length := by
  constructor
  · intro found
    refine ⟨eq_of_splitLast? found, fun before' behind' occurs => ?_⟩
    obtain ⟨_, _, found', later⟩ := exists_splitLast? occurs
    cases found.symm.trans found'
    exact later
  · rintro ⟨occurs, last⟩
    obtain ⟨before', behind', found, later⟩ := exists_splitLast? occurs
    have occurs' := eq_of_splitLast? found
    have lengths : before'.length = before.length :=
      Nat.le_antisymm (last before' behind' occurs') later
    obtain ⟨rfl, marks⟩ := List.append_inj (occurs'.symm.trans occurs) lengths
    rw [found, List.append_cancel_left marks]

/-- Texts that end in a mark and then characters other than the mark split in one way only. -/
theorem append_mark_inj {c : Char} {l l' m m' : List Char} (hm : c ∉ m) (hm' : c ∉ m')
    (h : l ++ c :: m = l' ++ c :: m') : l = l' ∧ m = m' := by
  rcases List.append_eq_append_iff.mp h with ⟨more, left, right⟩ | ⟨more, left, right⟩
  · cases more with
    | nil =>
      rw [List.append_nil] at left
      exact ⟨left.symm, (List.cons.inj right).2⟩
    | cons d more =>
      obtain ⟨rfl, rest⟩ := List.cons.inj right
      exact absurd (rest ▸ List.mem_append_right more List.mem_cons_self) hm
  · cases more with
    | nil =>
      rw [List.append_nil] at left
      exact ⟨left, (List.cons.inj right).2.symm⟩
    | cons d more =>
      obtain ⟨rfl, rest⟩ := List.cons.inj right
      exact absurd (rest ▸ List.mem_append_right more List.mem_cons_self) hm'

/-- The mark is last where its last character is: a later occurrence would have that character again. -/
theorem splitLast?_append {c : Char} (start before : List Char) (fresh : c ∉ behind) :
    splitLast? (start ++ [c]) (before ++ (start ++ c :: behind)) = some (before, behind) := by
  refine splitLast?_eq_some_iff.mpr ⟨by simp, fun before' behind' occurs => ?_⟩
  by_contra later
  have regrouped : (before ++ start) ++ c :: behind = (before' ++ start) ++ c :: behind' := by
    simpa using occurs
  have lengths := congrArg List.length regrouped
  simp only [List.length_append, List.length_cons] at lengths
  have tail : behind' <:+ behind := by
    have whole : c :: behind' <:+ c :: behind :=
      List.suffix_of_suffix_length_le ⟨_, regrouped.symm⟩ ⟨_, rfl⟩
        (by simp only [List.length_cons]; omega)
    rcases List.suffix_cons_iff.mp whole with same | shorter
    · exact (List.cons.inj same).2 ▸ List.suffix_rfl
    · exact (List.suffix_cons c behind').trans shorter
  have fresh' : c ∉ behind' := fun again => fresh (tail.subset again)
  obtain ⟨starts, -⟩ := append_mark_inj fresh fresh' regrouped
  exact later (Nat.le_of_eq (congrArg List.length (List.append_cancel_right starts).symm))

end GridSweep
