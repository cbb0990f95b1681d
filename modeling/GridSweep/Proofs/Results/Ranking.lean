import GridSweep.Proofs.Number.Order
import GridSweep.Results.Basic

namespace GridSweep

/-- Sorting is stable: what it could put either way stays in its order. -/
theorem pairwise_mergeSort_stable {α : Type} {le : α → α → Bool}
    (trans : ∀ a b c, le a b = true → le b c = true → le a c = true)
    (total : ∀ a b, (le a b || le b a) = true) (l : List α) :
    (l.mergeSort le).Pairwise fun a b => le a b = true ∧ (le b a = true → [a, b].Sublist l) := by
  induction l with
  | nil => simp
  | cons a l ih =>
    obtain ⟨before, after, whole, rest, strict⟩ := List.mergeSort_cons trans total a l
    have sorted := List.pairwise_mergeSort trans total (a :: l)
    have known : ∀ b ∈ after, b ∈ l := fun b hb =>
      List.mem_mergeSort.mp (rest ▸ List.mem_append_right before hb)
    have further {b c : α} (h : le b c = true ∧ (le c b = true → [b, c].Sublist l)) :
        le b c = true ∧ (le c b = true → [b, c].Sublist (a :: l)) :=
      ⟨h.1, fun back => (h.2 back).cons a⟩
    rw [whole] at sorted ⊢
    rw [rest] at ih
    obtain ⟨-, back, across⟩ := List.pairwise_append.mp sorted
    obtain ⟨front', back', across'⟩ := List.pairwise_append.mp ih
    refine List.pairwise_append.mpr ⟨front'.imp further, ?_, ?_⟩
    · refine List.pairwise_cons.mpr ⟨fun b hb => ⟨?_, fun _ => ?_⟩, back'.imp further⟩
      · exact (List.pairwise_cons.mp back).1 b hb
      · exact (List.singleton_sublist.mpr (known b hb)).cons_cons a
    · intro b hb c hc
      rcases List.mem_cons.mp hc with rfl | hc
      · -- what stands before the new element is strictly before it
        have apart := strict b hb
        exact ⟨across b hb c List.mem_cons_self, fun back => by simp [back] at apart⟩
      · exact further (across' b hb c hc)

namespace Direction

def Better : Direction → Double → Double → Prop
  | maximize, x, y => y.Precedes x
  | minimize, x, y => x.Precedes y

variable {d : Direction} {x y z : Double}

theorem prefers_iff : d.prefers x y = true ↔ d.Better x y ∨ x = y := by
  cases d with
  | maximize =>
    rw [prefers, decide_eq_true_iff, Better, ← Double.rank_lt_iff, eq_comm, ← Double.rank_inj]
    exact Int.le_iff_lt_or_eq
  | minimize =>
    rw [prefers, decide_eq_true_iff, Better, ← Double.rank_lt_iff, ← Double.rank_inj]
    exact Int.le_iff_lt_or_eq

theorem prefers_trans (hxy : d.prefers x y = true) (hyz : d.prefers y z = true) :
    d.prefers x z = true := by
  cases d <;> simp only [prefers, decide_eq_true_iff] at hxy hyz ⊢ <;> omega

theorem prefers_total (d : Direction) (x y : Double) : (d.prefers x y || d.prefers y x) = true := by
  cases d <;> simp only [prefers, Bool.or_eq_true, decide_eq_true_iff] <;> omega

end Direction

namespace ResultSet

variable {d : Direction}

/-- The first record stands before the second in the ranking by a metric: its value is better, or the
values are equal and it was added earlier. -/
def Ahead (s : ResultSet) (metric : String) (d : Direction) (a b : RunRecord) : Prop :=
  ∃ x y, a.metric? metric = some x ∧ b.metric? metric = some y ∧
    (d.Better x y ∨ x = y ∧ [a, b].Sublist s.records)

def preferred (d : Direction) (a b : RunRecord × Double) : Bool := d.prefers a.2 b.2

theorem preferred_trans (d : Direction) (a b c : RunRecord × Double) (hab : preferred d a b = true)
    (hbc : preferred d b c = true) : preferred d a c = true :=
  Direction.prefers_trans hab hbc

theorem preferred_total (d : Direction) (a b : RunRecord × Double) :
    (preferred d a b || preferred d b a) = true :=
  d.prefers_total a.2 b.2

def kept (d : Direction) (a b : RunRecord × Double) : RunRecord × Double :=
  if d.prefers a.2 b.2 then a else b

theorem better_some (a b : RunRecord × Double) : better d (some a) b = some (kept d a b) := by
  simp only [better, kept]
  split <;> rfl

theorem kept_assoc (a b c : RunRecord × Double) :
    kept d (kept d a b) c = kept d a (kept d b c) := by
  by_cases first : d.prefers a.2 b.2 = true
  · by_cases second : d.prefers b.2 c.2 = true
    · have through := Direction.prefers_trans first second
      simp only [kept, first, second, through, if_true]
    · simp only [kept, first, second, if_true, if_false, reduceCtorEq]
  · by_cases second : d.prefers b.2 c.2 = true
    · simp only [kept, first, second, if_true, if_false, reduceCtorEq]
    · have back : d.prefers c.2 b.2 = true := by simpa [second] using d.prefers_total b.2 c.2
      have through : ¬ d.prefers a.2 c.2 = true := fun through =>
        first (Direction.prefers_trans through back)
      simp only [kept, first, second, through, if_false, reduceCtorEq]

/-- A record held from the start is kept unless the best of the later ones is better. -/
theorem foldl_better_some (a : RunRecord × Double) (l : List (RunRecord × Double)) :
    l.foldl (better d) (some a) = some ((l.foldl (better d) none).elim a (kept d a)) := by
  induction l generalizing a with
  | nil => rfl
  | cons x rest ih =>
    have first : (x :: rest).foldl (better d) none = rest.foldl (better d) (some x) := rfl
    rw [first, List.foldl_cons, better_some, ih, ih]
    cases rest.foldl (better d) none with
    | none => rfl
    | some b => exact congrArg some (kept_assoc a x b)

theorem head?_mergeSort_cons (a : RunRecord × Double) (l : List (RunRecord × Double)) :
    ((a :: l).mergeSort (preferred d)).head? =
      some ((l.mergeSort (preferred d)).head?.elim a (kept d a)) := by
  obtain ⟨before, after, whole, rest, strict⟩ :=
    List.mergeSort_cons (preferred_trans d) (preferred_total d) a l
  have sorted := List.pairwise_mergeSort (preferred_trans d) (preferred_total d) (a :: l)
  rw [whole] at sorted
  rw [whole, rest]
  cases before with
  | nil =>
    cases after with
    | nil => rfl
    | cons b after =>
      have kept : d.prefers a.2 b.2 = true := List.rel_of_pairwise_cons sorted List.mem_cons_self
      exact congrArg some (if_pos kept).symm
  | cons b before =>
    have passed : ¬ d.prefers a.2 b.2 = true := by
      simpa [preferred] using strict b List.mem_cons_self
    exact congrArg some (if_neg passed).symm

/-- Going through the records once finds what sorting them puts first. -/
theorem foldl_better_eq_head? (l : List (RunRecord × Double)) :
    l.foldl (better d) none = (l.mergeSort (preferred d)).head? := by
  induction l with
  | nil => simp
  | cons a rest ih => exact (foldl_better_some a rest).trans (by rw [ih, head?_mergeSort_cons])

section

variable (s : ResultSet) (metric : String) (d : Direction)

def ranking : List RunRecord := ((s.carrying metric).mergeSort (preferred d)).map Prod.fst

theorem top_eq (n : Nat) : s.top metric d n = (s.ranking metric d).take n :=
  List.map_take

theorem map_fst_carrying :
    (s.carrying metric).map Prod.fst = s.records.filter fun r => (r.metric? metric).isSome := by
  rw [carrying, List.map_filterMap, ← List.filterMap_eq_filter]
  refine congrArg (s.records.filterMap ·) (funext fun r => ?_)
  cases h : r.metric? metric <;> simp [Option.guard, h]

theorem ranking_perm :
    (s.ranking metric d).Perm (s.records.filter fun r => (r.metric? metric).isSome) := by
  rw [← s.map_fst_carrying metric]
  exact (List.mergeSort_perm _ _).map Prod.fst

variable {s metric} in
theorem metric?_of_mem_carrying {p : RunRecord × Double} (h : p ∈ s.carrying metric) :
    p.1.metric? metric = some p.2 := by
  obtain ⟨r, -, found⟩ := List.mem_filterMap.mp h
  obtain ⟨x, value, rfl⟩ := Option.map_eq_some_iff.mp found
  exact value

theorem ranking_pairwise : (s.ranking metric d).Pairwise (s.Ahead metric d) := by
  have stable := pairwise_mergeSort_stable (preferred_trans d) (preferred_total d) (s.carrying metric)
  refine List.pairwise_map.mpr (stable.imp_of_mem fun {a b} ha hb h => ?_)
  refine ⟨a.2, b.2, metric?_of_mem_carrying (List.mem_mergeSort.mp ha),
    metric?_of_mem_carrying (List.mem_mergeSort.mp hb), ?_⟩
  rcases Direction.prefers_iff.mp h.1 with better | equal
  · exact .inl better
  · have earlier : [a, b].Sublist (s.carrying metric) :=
      h.2 (Direction.prefers_iff.mpr (.inr equal.symm))
    have records := earlier.map Prod.fst
    rw [map_fst_carrying] at records
    exact .inr ⟨equal, records.trans List.filter_sublist⟩

theorem ranking_eq_nil_iff :
    s.ranking metric d = [] ↔ ∀ r ∈ s.records, r.metric? metric = none := by
  rw [← List.length_eq_zero_iff, (s.ranking_perm metric d).length_eq, List.length_eq_zero_iff,
    List.filter_eq_nil_iff]
  simp only [Option.not_isSome_iff_eq_none]

theorem isEmpty_iff : s.isEmpty = true ↔ s.records = [] := List.isEmpty_iff

theorem best_eq : s.best metric d =
    if s.isEmpty then .error (.emptySet metric)
    else match (s.ranking metric d).head? with
      | some r => .ok r
      | none => .error (.metricMissing metric s.size) := by
  rw [best, foldl_better_eq_head?, ranking, List.head?_map]
  cases ((s.carrying metric).mergeSort (preferred d)).head? <;> rfl

variable {r : RunRecord} {e : Fault}

theorem best_eq_ok_iff : s.best metric d = .ok r ↔ (s.ranking metric d).head? = some r := by
  rw [best_eq]
  split
  · rename_i empty
    have none : s.ranking metric d = [] := (s.ranking_eq_nil_iff metric d).mpr fun r hr => by
      rw [s.isEmpty_iff.mp empty] at hr
      cases hr
    simp [none]
  · cases (s.ranking metric d).head? <;> simp

theorem best_eq_error_iff : s.best metric d = .error e ↔
    e = .emptySet metric ∧ s.records = [] ∨
    e = .metricMissing metric s.records.length ∧ s.records ≠ [] ∧
      ∀ r ∈ s.records, r.metric? metric = none := by
  rw [best_eq, ← s.ranking_eq_nil_iff metric d]
  by_cases empty : s.records = []
  · rw [if_pos (s.isEmpty_iff.mpr empty), Except.error.injEq, eq_comm]
    simp [empty]
  · rw [if_neg (mt s.isEmpty_iff.mp empty)]
    cases s.ranking metric d with
    | nil =>
      rw [List.head?_nil, Except.error.injEq, eq_comm]
      simp [size, empty]
    | cons r rest => simp [empty]

/-- There is one list of the records that carry the metric, each once, the better before the worse in
the total order of floating-point numbers and equals in the order of the set. The `n` best records
are its first `n`, and the best record is the first of them. There is no best record only if the set
is empty or no record carries the metric, and the failure tells which. -/
theorem best_heads_ranking : ∃ ranking : List RunRecord,
    ranking.Perm (s.records.filter fun r => (r.metric? metric).isSome) ∧
    ranking.Pairwise (s.Ahead metric d) ∧
    (∀ n, s.top metric d n = ranking.take n) ∧
    (∀ n r, s.best metric d = .ok r ↔ (s.top metric d (n + 1)).head? = some r) ∧
    ∀ e, s.best metric d = .error e ↔
      e = .emptySet metric ∧ s.records = [] ∨
      e = .metricMissing metric s.records.length ∧ s.records ≠ [] ∧
        ∀ r ∈ s.records, r.metric? metric = none := by
  refine ⟨s.ranking metric d, s.ranking_perm metric d, s.ranking_pairwise metric d,
    s.top_eq metric d, fun n r => ?_, fun e => s.best_eq_error_iff metric d⟩
  rw [s.top_eq metric d, List.head?_take, if_neg n.succ_ne_zero]
  exact s.best_eq_ok_iff metric d

end

end ResultSet

end GridSweep
