import GridSweep.Proofs.Config.Signature
import GridSweep.Proofs.Grid.Named
import GridSweep.Proofs.Objective

namespace GridSweep

/-- A dial that turns slower than another shows one symbol only if both always show the same. -/
theorem constant_of_agree {α : Type} {symbols : List α} {slow fast total : Nat} (turning : 0 < fast)
    (slower : fast < slow) (through : symbols.length * fast ≤ total)
    (agree : ∀ k < total,
      symbols[k / fast % symbols.length]? = symbols[k / slow % symbols.length]?) :
    ∀ i < symbols.length, symbols[i]? = symbols[0]? := by
  intro i
  induction i using Nat.strongRecOn with
  | ind i earlier =>
    intro inside
    cases i with
    | zero => rfl
    | succ i =>
      -- When the fast dial comes to this symbol, the slow one is still at an earlier one.
      have now : (i + 1) * fast < total :=
        Nat.lt_of_lt_of_le (Nat.mul_lt_mul_of_pos_right inside turning) through
      have behind : (i + 1) * fast / slow < i + 1 :=
        (Nat.div_lt_iff_lt_mul (by omega)).mpr (Nat.mul_lt_mul_of_pos_left slower (by omega))
      have shown := agree _ now
      rw [Nat.mul_div_cancel _ turning, Nat.mod_eq_of_lt inside,
        Nat.mod_eq_of_lt (by omega)] at shown
      rw [shown]
      exact earlier _ behind (by omega)

namespace ParameterKind

def texts (kind : ParameterKind) : List String := kind.candidates.map Json.canonical

theorem length_texts {kind : ParameterKind} (grid : kind.isGrid = true) :
    kind.texts.length = kind.cardinality := by
  rw [texts, List.length_map, length_candidates grid]

theorem Alike.isGrid {k l : ParameterKind} (h : k.Alike l) : k.isGrid = l.isGrid := by
  cases k <;> cases l <;> first | rfl | exact h.elim

theorem Alike.texts {k l : ParameterKind} (h : k.Alike l) : k.texts = l.texts := by
  cases k <;> cases l <;> first | exact h.elim | skip
  · exact congrArg (fun text => [text]) h
  · exact h
  · rfl

def Still (kind : ParameterKind) : Prop :=
  ∀ v ∈ kind.candidates, ∀ w ∈ kind.candidates, v.canonical = w.canonical

theorem still_iff {kind : ParameterKind} :
    kind.Still ↔ ∀ i < kind.texts.length, kind.texts[i]? = kind.texts[0]? := by
  constructor
  · intro still i inside
    have first : 0 < kind.texts.length := Nat.zero_lt_of_lt inside
    rw [List.getElem?_eq_getElem inside, List.getElem?_eq_getElem first]
    obtain ⟨v, hv, same⟩ := List.mem_map.mp (List.getElem_mem inside)
    obtain ⟨w, hw, same'⟩ := List.mem_map.mp (List.getElem_mem first)
    exact congrArg some (same.symm.trans ((still v hv w hw).trans same'))
  · intro constant
    have shown {v : Json} (hv : v ∈ kind.candidates) : some v.canonical = kind.texts[0]? := by
      obtain ⟨i, inside, here⟩ := List.getElem_of_mem (List.mem_map_of_mem (f := Json.canonical) hv)
      rw [← here, ← List.getElem?_eq_getElem inside]
      exact constant i inside
    exact fun v hv w hw => Option.some.inj ((shown hv).trans (shown hw).symm)

end ParameterKind

namespace Parameters

/-- For how many objectives a parameter keeps its value: the product of the later cardinalities. -/
def stride (name : String) : List (String × ParameterKind) → Nat
  | [] => 1
  | e :: later => if e.1 = name then product later else stride name later

def shown (p : Parameters) (k : Nat) (name : String) : Option String :=
  (Entries.find? name p.grid).bind fun kind =>
    kind.texts[k / stride name p.grid % kind.cardinality]?

theorem find?_point? {l : List (String × ParameterKind)} {k : Nat} {values : List (String × Json)}
    (h : point? l k = some values) (name : String) :
    Entries.find? name values = (Entries.find? name l).bind fun kind =>
      kind.candidates[k / stride name l % kind.cardinality]? := by
  induction l generalizing values with
  | nil =>
    cases h
    rfl
  | cons e later ih =>
    unfold point? at h
    split at h
    · rename_i value rest chosen following
      cases h
      by_cases same : e.1 = name
      · rw [Entries.find?, if_pos same, Entries.find?, if_pos same, stride, if_pos same]
        exact chosen.symm
      · rw [Entries.find?, if_neg same, Entries.find?, if_neg same, stride, if_neg same]
        exact ih following
    · cases h

theorem shown_of_isNumbered {o : Objective} {model : String} {p : Parameters} {k : Nat}
    (h : o.IsNumbered model p k) (name : String) :
    (o.value? name).map Json.canonical = p.shown k name := by
  rw [Objective.value?, Table.find?, find?_point? h.values name, shown, Option.map_bind]
  refine congrArg (Option.bind _) (funext fun kind => ?_)
  rw [ParameterKind.texts, List.getElem?_map]
  rfl

theorem product_cons (e : String × ParameterKind) (later : List (String × ParameterKind)) :
    product (e :: later) = e.2.cardinality * product later := by
  rw [product, List.map_cons, List.prod_cons, product]

theorem product_pos {l : List (String × ParameterKind)} (valid : ∀ e ∈ l, e.2.Valid) :
    0 < product l := by
  induction l with
  | nil => exact Nat.one_pos
  | cons e later ih =>
    rw [product_cons]
    exact Nat.mul_pos (valid e List.mem_cons_self).cardinality_pos
      (ih fun e he => valid e (List.mem_cons_of_mem _ he))

theorem stride_pos {l : List (String × ParameterKind)} (valid : ∀ e ∈ l, e.2.Valid) (name : String) :
    0 < stride name l := by
  induction l with
  | nil => exact Nat.one_pos
  | cons e later ih =>
    have valid' : ∀ e ∈ later, e.2.Valid := fun e he => valid e (List.mem_cons_of_mem _ he)
    unfold stride
    split
    · exact product_pos valid'
    · exact ih valid'

theorem cardinality_mul_stride_le {l : List (String × ParameterKind)} (valid : ∀ e ∈ l, e.2.Valid)
    {name : String} {kind : ParameterKind} (h : Entries.find? name l = some kind) :
    kind.cardinality * stride name l ≤ product l := by
  induction l with
  | nil => cases h
  | cons e later ih =>
    have valid' : ∀ e ∈ later, e.2.Valid := fun e he => valid e (List.mem_cons_of_mem _ he)
    by_cases same : e.1 = name
    · rw [Entries.find?, if_pos same] at h
      obtain rfl := Option.some.inj h
      exact Nat.le_of_eq (by rw [stride, if_pos same, product_cons])
    · rw [Entries.find?, if_neg same] at h
      rw [stride, if_neg same, product_cons]
      exact Nat.le_trans (ih valid' h)
        (Nat.le_mul_of_pos_left _ (valid e List.mem_cons_self).cardinality_pos)

theorem find?_grid (p : Parameters) (name : String) :
    Entries.find? name p.grid = (p.find? name).filter ParameterKind.isGrid :=
  Entries.find?_filter ParameterKind.isGrid p.distinct name

theorem keys_grid_nodup (p : Parameters) : (p.grid.map Prod.fst).Nodup :=
  p.distinct.sublist (List.filter_sublist.map _)

variable {p q : Parameters}

theorem Alike.grid (h : p.Alike q) (name : String) :
    (Entries.find? name p.grid).map ParameterKind.texts =
      (Entries.find? name q.grid).map ParameterKind.texts := by
  rw [find?_grid, find?_grid]
  have both := h name
  generalize p.find? name = first at both ⊢
  generalize q.find? name = second at both ⊢
  cases both with
  | none => rfl
  | @some k l alike =>
    have grids := alike.isGrid
    cases grid : k.isGrid with
    | false => simp [Option.filter, grid, grids.symm.trans grid]
    | true => simp [Option.filter, grid, grids.symm.trans grid, alike.texts]

theorem product_grid (p : Parameters) :
    product p.grid = ((Entries.mapValues ParameterKind.texts p.grid).map (·.2.length)).prod := by
  rw [product, Entries.mapValues, List.map_map]
  refine congrArg List.prod (List.map_congr_left fun e he => ?_)
  exact (ParameterKind.length_texts (Plane.isGrid_of_mem_grid he).2).symm

theorem Alike.product_eq (h : p.Alike q) : product p.grid = product q.grid := by
  have keys (p : Parameters) :
      ((Entries.mapValues ParameterKind.texts p.grid).map Prod.fst).Nodup := by
    rw [Entries.keys_mapValues]
    exact p.keys_grid_nodup
  have perm := Entries.perm_of_find? (keys p) (keys q) fun name => by
    rw [Entries.find?_mapValues, Entries.find?_mapValues, h.grid name]
  rw [product_grid, product_grid, (perm.map _).prod_nat]

/-- Every axis with different candidates turns as fast among the ones as among the others. -/
def TurnsLike (p q : Parameters) : Prop :=
  ∀ e ∈ p.grid, e.2.Still ∨ stride e.1 p.grid = stride e.1 q.grid

/-- What is shown on an axis: the text of the candidate that the stride says. -/
theorem shown_of_find? {k : Nat} {name : String} {kind : ParameterKind}
    (h : Entries.find? name p.grid = some kind) :
    p.shown k name = kind.texts[k / stride name p.grid % kind.texts.length]? := by
  have grid := (Plane.isGrid_of_mem_grid (Entries.mem_of_find? h)).2
  rw [shown, h, Option.bind_some, ParameterKind.length_texts grid]

/-- One axis shows the same among both throughout only if its candidates are all the same or its
strides are. -/
theorem still_or_stride_eq (alike : p.Alike q) (hp : ∀ e ∈ p.grid, e.2.Valid)
    (hq : ∀ e ∈ q.grid, e.2.Valid) {name : String} {kind : ParameterKind}
    (h : Entries.find? name p.grid = some kind)
    (agree : ∀ k < product p.grid, p.shown k name = q.shown k name) :
    kind.Still ∨ stride name p.grid = stride name q.grid := by
  obtain ⟨kind', h', same⟩ : ∃ kind', Entries.find? name q.grid = some kind' ∧
      kind.texts = kind'.texts := by
    have texts := alike.grid name
    rw [h, Option.map_some] at texts
    obtain ⟨kind', found, same⟩ := Option.map_eq_some_iff.mp texts.symm
    exact ⟨kind', found, same.symm⟩
  have through := cardinality_mul_stride_le hp h
  have through' := cardinality_mul_stride_le hq h'
  rw [← ParameterKind.length_texts (Plane.isGrid_of_mem_grid (Entries.mem_of_find? h)).2] at through
  rw [← ParameterKind.length_texts (Plane.isGrid_of_mem_grid (Entries.mem_of_find? h')).2, ← same,
    ← alike.product_eq] at through'
  have dials : ∀ k < product p.grid,
      kind.texts[k / stride name p.grid % kind.texts.length]? =
        kind.texts[k / stride name q.grid % kind.texts.length]? := by
    intro k below
    have shown := agree k below
    rwa [shown_of_find? h, shown_of_find? h', ← same] at shown
  rcases Nat.lt_trichotomy (stride name p.grid) (stride name q.grid) with slower | equal | faster
  · exact .inl (ParameterKind.still_iff.mpr
      (constant_of_agree (stride_pos hp name) slower through dials))
  · exact .inr equal
  · exact .inl (ParameterKind.still_iff.mpr
      (constant_of_agree (stride_pos hq name) faster through' fun k below => (dials k below).symm))

theorem shown_eq_iff (alike : p.Alike q) (hp : ∀ e ∈ p.grid, e.2.Valid)
    (hq : ∀ e ∈ q.grid, e.2.Valid) :
    (∀ k < product p.grid, ∀ name, p.shown k name = q.shown k name) ↔ p.TurnsLike q := by
  constructor
  · intro agree e he
    exact still_or_stride_eq alike hp hq (Entries.find?_of_mem p.keys_grid_nodup he)
      fun k below => agree k below e.1
  · intro turns k _ name
    have texts := alike.grid name
    cases h : Entries.find? name p.grid with
    | none =>
      have h' : Entries.find? name q.grid = none := by
        rw [h, Option.map_none] at texts
        exact Option.map_eq_none_iff.mp texts.symm
      rw [shown, shown, h, h']
      rfl
    | some kind =>
      rw [h, Option.map_some] at texts
      obtain ⟨kind', h', same⟩ := Option.map_eq_some_iff.mp texts.symm
      rw [shown_of_find? h, shown_of_find? h', same]
      rcases turns _ (Entries.mem_of_find? h) with still | equal
      · have some : 0 < kind.texts.length := by
          rw [ParameterKind.length_texts (Plane.isGrid_of_mem_grid (Entries.mem_of_find? h)).2]
          exact (hp _ (Entries.mem_of_find? h)).cardinality_pos
        rw [ParameterKind.still_iff.mp still _ (Nat.mod_lt _ some),
          ParameterKind.still_iff.mp still _ (Nat.mod_lt _ some)]
      · rw [equal]

end Parameters

end GridSweep
