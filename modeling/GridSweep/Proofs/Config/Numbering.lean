import GridSweep.Proofs.Grid.Turning

namespace GridSweep

/-- The first of several pieces that tell where they come from is what tells so. -/
theorem filter_tagged {α β : Type} {f : String × α → List β} {tag : β → String}
    (tagged : ∀ a, ∀ x ∈ f a, tag x = a.1) {a : String × α} {l : List (String × α)}
    (fresh : a.1 ∉ l.map Prod.fst) : (f a ++ l.flatMap f).filter (tag · = a.1) = f a := by
  have others : l.filter (·.1 = a.1) = [] :=
    List.filter_eq_nil_iff.mpr fun b hb same =>
      fresh (of_decide_eq_true same ▸ List.mem_map_of_mem hb)
  rw [← List.flatMap_cons, Entries.filter_flatMap tagged,
    List.filter_cons, if_pos (decide_eq_true rfl), others, List.flatMap_singleton]

theorem first_eq_of_tagged {α β : Type} {f : String × α → List β} {tag : β → String}
    (tagged : ∀ a, ∀ x ∈ f a, tag x = a.1) {a b : String × α} {l m : List (String × α)}
    (fresh : a.1 ∉ l.map Prod.fst) (fresh' : b.1 ∉ m.map Prod.fst) (filled : f a ≠ [])
    (filled' : f b ≠ []) (whole : f a ++ l.flatMap f = f b ++ m.flatMap f) :
    a.1 = b.1 ∧ f a = f b ∧ l.flatMap f = m.flatMap f := by
  have name : a.1 = b.1 := by
    obtain ⟨x, rest, shape⟩ := List.exists_cons_of_ne_nil filled
    obtain ⟨y, others, shape'⟩ := List.exists_cons_of_ne_nil filled'
    have heads : x = y := by
      rw [shape, shape'] at whole
      exact (List.cons.inj whole).1
    rw [← tagged a x (shape ▸ List.mem_cons_self), heads,
      tagged b y (shape' ▸ List.mem_cons_self)]
  have same : f a = f b := by
    rw [← filter_tagged tagged fresh, whole, name, filter_tagged tagged fresh']
  rw [same] at whole
  exact ⟨name, same, List.append_cancel_left whole⟩

/-- Lists put together from pieces that tell where they come from: they are the same when the pieces
come in the same order and are the same. -/
theorem flatMap_eq_iff_of_tagged {α β : Type} {f : String × α → List β} {tag : β → String}
    (tagged : ∀ a, ∀ x ∈ f a, tag x = a.1) {l m : List (String × α)}
    (hl : (l.map Prod.fst).Nodup) (hm : (m.map Prod.fst).Nodup)
    (filled : ∀ a ∈ l, f a ≠ []) (filled' : ∀ b ∈ m, f b ≠ []) :
    l.flatMap f = m.flatMap f ↔ l.map Prod.fst = m.map Prod.fst ∧
      ∀ name x y, Entries.find? name l = some x → Entries.find? name m = some y →
        f (name, x) = f (name, y) := by
  induction l generalizing m with
  | nil =>
    cases m with
    | nil => simp
    | cons b m =>
      obtain ⟨x, rest, shape⟩ := List.exists_cons_of_ne_nil (filled' b List.mem_cons_self)
      simp [shape]
  | cons a l ih =>
    cases m with
    | nil =>
      obtain ⟨x, rest, shape⟩ := List.exists_cons_of_ne_nil (filled a List.mem_cons_self)
      simp [shape]
    | cons b m =>
      obtain ⟨fresh, hl'⟩ := List.nodup_cons.mp hl
      obtain ⟨fresh', hm'⟩ := List.nodup_cons.mp hm
      have ih := @ih m hl' hm' (fun a ha => filled a (List.mem_cons_of_mem _ ha))
        fun b hb => filled' b (List.mem_cons_of_mem _ hb)
      rw [List.flatMap_cons, List.flatMap_cons]
      constructor
      · intro whole
        obtain ⟨first, same, rests⟩ := first_eq_of_tagged tagged fresh fresh'
          (filled a List.mem_cons_self) (filled' b List.mem_cons_self) whole
        obtain ⟨names, pieces⟩ := ih.mp rests
        refine ⟨by rw [List.map_cons, List.map_cons, first, names], fun name x y hx hy => ?_⟩
        by_cases here : a.1 = name
        · rw [Entries.find?, if_pos here] at hx
          rw [Entries.find?, if_pos (first ▸ here)] at hy
          have starts : (name, x) = a := Prod.ext here.symm (Option.some.inj hx).symm
          have ends : (name, y) = b := Prod.ext (here.symm.trans first) (Option.some.inj hy).symm
          rw [starts, ends, same]
        · rw [Entries.find?, if_neg here] at hx
          rw [Entries.find?, if_neg (first ▸ here)] at hy
          exact pieces name x y hx hy
      · rintro ⟨names, pieces⟩
        obtain ⟨first, names'⟩ := List.cons.inj names
        have same : f a = f b := by
          have here := pieces a.1 a.2 b.2 (if_pos rfl) (if_pos first.symm)
          rw [here, first]
        rw [same, ih.mpr ⟨names', fun name x y hx hy => ?_⟩]
        have later : a.1 ≠ name := fun same =>
          fresh (same ▸ List.mem_map_of_mem (Entries.mem_of_find? hx))
        exact pieces name x y ((if_neg later).trans hx) ((if_neg (first ▸ later)).trans hy)

/-- A run as results know it: by its name, its model and its point of the grid. -/
def label (run : String × Objective) : String × String × String :=
  (run.1, run.2.model, run.2.gridKey)

namespace Plane

open Parameters

def labels (m : String × Parameters) : List (String × String × String) :=
  (Domain.namedOf (ofParameters m.1 m.2)).map label

theorem getElem?_labels (m : String × Parameters) (k : Nat) :
    (labels m)[k]? =
      (ofParameters m.1 m.2).objectives[k]?.map fun o => label (runName m.1 k, o) := by
  rw [labels, List.getElem?_map, Domain.namedOf, List.getElem?_mapIdx, Option.map_map]
  rfl

theorem model_of_mem_labels (m : String × Parameters) : ∀ x ∈ labels m, x.2.1 = m.1 := by
  intro x hx
  obtain ⟨run, named, rfl⟩ := List.mem_map.mp hx
  exact Domain.model_of_mem_namedOf named

variable {model : String} {p q : Parameters}

/-- The `k`-th objective shows on every axis what the strides say. -/
theorem exists_shown (valid : ∀ e ∈ p.entries, e.2.Valid) {k : Nat} (below : k < product p.grid) :
    ∃ o, (ofParameters model p).objectives[k]? = some o ∧ o.model = model ∧
      ∀ name, (o.value? name).map Json.canonical = p.shown k name := by
  have inside : k < (ofParameters model p).objectives.length := by
    rwa [length_objectives]
  have listed := List.getElem?_eq_getElem inside
  have numbered := isNumbered_objective (inhabited_axes model valid) listed
  exact ⟨_, listed, numbered.model, shown_of_isNumbered numbered⟩

theorem keys_eq_iff (alike : p.Alike q) (hp : ∀ e ∈ p.entries, e.2.Valid)
    (hq : ∀ e ∈ q.entries, e.2.Valid) :
    (∀ (k : Nat) (o o' : Objective), (ofParameters model p).objectives[k]? = some o →
      (ofParameters model q).objectives[k]? = some o' → o.gridKey = o'.gridKey) ↔ p.TurnsLike q := by
  have hp' : ∀ e ∈ p.grid, e.2.Valid := fun e he => hp e (isGrid_of_mem_grid he).1
  have hq' : ∀ e ∈ q.grid, e.2.Valid := fun e he => hq e (isGrid_of_mem_grid he).1
  rw [← shown_eq_iff alike hp' hq']
  constructor
  · intro same k below name
    obtain ⟨o, listed, -, shows⟩ := @exists_shown model p hp k below
    obtain ⟨o', listed', -, shows'⟩ := @exists_shown model q hq k (alike.product_eq ▸ below)
    rw [← shows, ← shows']
    exact (Objective.gridKey_inj.mp (same k o o' listed listed')).2 name
  · intro same k o o' here here'
    have below : k < product p.grid := by
      rw [← length_objectives model p]
      exact (List.getElem?_eq_some_iff.mp here).1
    obtain ⟨_, listed, own, shows⟩ := @exists_shown model p hp k below
    obtain ⟨_, listed', own', shows'⟩ := @exists_shown model q hq k (alike.product_eq ▸ below)
    obtain rfl := Option.some.inj (here.symm.trans listed)
    obtain rfl := Option.some.inj (here'.symm.trans listed')
    refine Objective.gridKey_inj.mpr ⟨own.trans own'.symm, fun name => ?_⟩
    rw [shows, shows', same k below name]

theorem labels_eq_iff (alike : p.Alike q) (hp : ∀ e ∈ p.entries, e.2.Valid)
    (hq : ∀ e ∈ q.entries, e.2.Valid) : labels (model, p) = labels (model, q) ↔ p.TurnsLike q := by
  rw [← @keys_eq_iff model p q alike hp hq]
  constructor
  · intro same k o o' here here'
    have both := congrArg (·[k]?) same
    simp only [getElem?_labels, here, here', Option.map_some] at both
    exact congrArg (·.2.2) (Option.some.inj both)
  · intro same
    refine List.ext_getElem? fun k => ?_
    rw [getElem?_labels, getElem?_labels]
    by_cases below : k < product p.grid
    · obtain ⟨o, here, own, -⟩ := @exists_shown model p hp k below
      obtain ⟨o', here', own', -⟩ := @exists_shown model q hq k (alike.product_eq ▸ below)
      rw [here, here', Option.map_some, Option.map_some, label, label, own, own',
        same k o o' here here']
    · have past (p : Parameters) (h : ¬ k < product p.grid) :
          (ofParameters model p).objectives[k]? = none := by
        rw [List.getElem?_eq_none_iff, length_objectives]
        exact Nat.le_of_not_lt h
      rw [past p below, past q (alike.product_eq ▸ below)]

end Plane

namespace Domain

variable {d e : Domain}

/-- In every model that both domains have, the parameters turn alike. -/
def TurnsLike (d e : Domain) : Prop :=
  ∀ model p q, d.parameters? model = some p → e.parameters? model = some q → p.TurnsLike q

theorem Alike.parameters (alike : d.Alike e) {model : String} {p q : Parameters}
    (hp : d.parameters? model = some p) (hq : e.parameters? model = some q) : p.Alike q := by
  have both := alike model
  rw [hp, hq] at both
  cases both with
  | some same => exact same

theorem label_named (d : Domain) : d.named.map label = d.models.entries.flatMap Plane.labels := by
  rw [named, planes, List.flatMap_map, List.map_flatMap]
  rfl

theorem Declared.labels_ne_nil (declared : d.Declared) :
    ∀ m ∈ d.models.entries, Plane.labels m ≠ [] := by
  intro m hm empty
  have valid : ∀ e ∈ m.2.grid, e.2.Valid := fun e he =>
    declared.valid m hm e (Plane.isGrid_of_mem_grid he).1
  have length := congrArg List.length empty
  rw [Plane.labels, List.length_map, length_namedOf, Plane.length_objectives] at length
  exact Nat.ne_of_gt (Parameters.product_pos valid) length

theorem labels_eq_iff (alike : d.Alike e) (hd : d.Declared) (he : e.Declared) :
    d.named.map label = e.named.map label ↔ d.models.names = e.models.names ∧ d.TurnsLike e := by
  rw [label_named, label_named, flatMap_eq_iff_of_tagged Plane.model_of_mem_labels
    d.models.distinct e.models.distinct hd.labels_ne_nil he.labels_ne_nil]
  refine and_congr_right fun _ => forall_congr' fun model => forall_congr' fun p =>
    forall_congr' fun q => forall_congr' fun hp => forall_congr' fun hq => ?_
  exact Plane.labels_eq_iff (alike.parameters hp hq) (hd.valid _ (mem_of_parameters? hp))
    (he.valid _ (mem_of_parameters? hq))

/-- No run name stands for different points when the parameters turn alike, and only then. -/
theorem points_agree_iff (alike : d.Alike e) (hd : d.Declared) (he : e.Declared) :
    (∀ x ∈ d.named.map label, ∀ y ∈ e.named.map label, x.1 = y.1 → x = y) ↔ d.TurnsLike e := by
  rw [label_named, label_named]
  constructor
  · intro agree model p q hp hq
    have hm := mem_of_parameters? hp
    have hn := mem_of_parameters? hq
    refine (@Plane.keys_eq_iff model p q (alike.parameters hp hq) (hd.valid _ hm)
      (he.valid _ hn)).mp fun k o o' here here' => ?_
    have first : label (runName model k, o) ∈ d.models.entries.flatMap Plane.labels :=
      List.mem_flatMap.mpr ⟨_, hm, List.mem_of_getElem? ((Plane.getElem?_labels (model, p) k).trans
        (congrArg (Option.map _) here))⟩
    have second : label (runName model k, o') ∈ e.models.entries.flatMap Plane.labels :=
      List.mem_flatMap.mpr ⟨_, hn, List.mem_of_getElem? ((Plane.getElem?_labels (model, q) k).trans
        (congrArg (Option.map _) here'))⟩
    exact congrArg (·.2.2) (agree _ first _ second rfl)
  · intro turns x hx y hy names
    obtain ⟨⟨model, p⟩, hm, hx⟩ := List.mem_flatMap.mp hx
    obtain ⟨⟨other, q⟩, hn, hy⟩ := List.mem_flatMap.mp hy
    obtain ⟨k, hx⟩ := List.mem_iff_getElem?.mp hx
    obtain ⟨l, hy⟩ := List.mem_iff_getElem?.mp hy
    rw [Plane.getElem?_labels, Option.map_eq_some_iff] at hx hy
    obtain ⟨o, here, rfl⟩ := hx
    obtain ⟨o', here', rfl⟩ := hy
    -- The name tells the model and the number.
    obtain ⟨rfl, rfl⟩ := runName_inj names
    have hp := Entries.find?_of_mem d.models.distinct hm
    have hq := Entries.find?_of_mem e.models.distinct hn
    have same : Plane.labels (model, p) = Plane.labels (model, q) :=
      (Plane.labels_eq_iff (alike.parameters hp hq) (hd.valid _ hm) (he.valid _ hn)).mpr
        (turns model p q hp hq)
    have both := congrArg (·[k]?) same
    simp only [Plane.getElem?_labels, here, here', Option.map_some] at both
    exact Option.some.inj both

end Domain

def NamedCursor.labelAt (d : Domain) (n : Nat) : Option (String × String × String) :=
  ((ofDomain d).drop n).next?.map fun answer => label answer.1

theorem NamedCursor.labelAt_eq {d : Domain} (declared : d.Declared) (n : Nat) :
    labelAt d n = (d.named.map label)[n]? := by
  rw [List.getElem?_map, ← next?_drop declared n, Option.map_map]
  rfl

namespace Config

open NamedCursor

/-- Two configurations with one fingerprint number the same points the same way exactly when they
declare their models in the same order and their parameters turn alike; and a run name never stands
for one point in the one and for another in the other exactly when the parameters turn alike. -/
theorem sameNumbering_iff (c e : Config) (hc : c.domain.Declared) (he : e.domain.Declared)
    (noCollision : Sha256.hex c.signature.canonical = Sha256.hex e.signature.canonical →
      c.signature.canonical = e.signature.canonical)
    (accepted : c.fingerprint = e.fingerprint) :
    ((∀ n, labelAt c.domain n = labelAt e.domain n) ↔
      c.domain.models.names = e.domain.models.names ∧ c.domain.TurnsLike e.domain) ∧
    ((∀ i j x y, labelAt c.domain i = some x → labelAt e.domain j = some y → x.1 = y.1 → x = y) ↔
      c.domain.TurnsLike e.domain) := by
  have alike : c.domain.Alike e.domain := (signature_inj.mp (noCollision accepted)).2
  rw [← Domain.labels_eq_iff alike hc he, ← Domain.points_agree_iff alike hc he]
  refine ⟨?_, ?_⟩
  · constructor
    · intro same
      refine List.ext_getElem? fun n => ?_
      rw [← labelAt_eq hc, ← labelAt_eq he, same n]
    · intro same n
      rw [labelAt_eq hc, labelAt_eq he, same]
  · constructor
    · intro agree x hx y hy
      obtain ⟨i, hx⟩ := List.mem_iff_getElem?.mp hx
      obtain ⟨j, hy⟩ := List.mem_iff_getElem?.mp hy
      exact agree i j x y ((labelAt_eq hc i).trans hx) ((labelAt_eq he j).trans hy)
    · intro agree i j x y hx hy
      exact agree x (List.mem_of_getElem? ((labelAt_eq hc i).symm.trans hx)) y
        (List.mem_of_getElem? ((labelAt_eq he j).symm.trans hy))

def twoDials : List (String × ParameterKind) :=
  [("a", .categorical [.ofNat 1, .ofNat 2]), ("b", .categorical [.str "x", .str "y"])]

def dials (l : List (String × ParameterKind)) : Config :=
  .ofDomain (some "demo") ⟨Table.empty.insert "m" (.ofList l)⟩ .standard

theorem declared_dials :
    (dials twoDials).domain.Declared ∧ (dials twoDials.reverse).domain.Declared :=
  ⟨@Domain.Declared.addParameters .empty _ "m" twoDials .empty rfl,
    @Domain.Declared.addParameters .empty _ "m" twoDials.reverse .empty rfl⟩

theorem signature_dials_reverse :
    (dials twoDials).signature.canonical = (dials twoDials.reverse).signature.canonical :=
  rfl

theorem not_turnsLike_dials_reverse :
    ¬ (dials twoDials).domain.TurnsLike (dials twoDials.reverse).domain := by
  intro turns
  rcases turns "m" _ _ rfl rfl _ List.mem_cons_self with still | equal
  · have same := still _ List.mem_cons_self _ (List.mem_cons_of_mem _ List.mem_cons_self)
    revert same
    decide
  · revert equal
    decide

/-- Declared the other way round, the parameters have the same fingerprint, but the second run name
stands for another point. -/
theorem sameNumbering_iff_dials_reverse :
    (dials twoDials).fingerprint = (dials twoDials.reverse).fingerprint ∧
    labelAt (dials twoDials).domain 1 =
      some ("m_run_1", "m", "[\"m\",\x7b\"a\":1,\"b\":\"y\"\x7d]") ∧
    labelAt (dials twoDials.reverse).domain 1 =
      some ("m_run_1", "m", "[\"m\",\x7b\"a\":2,\"b\":\"x\"\x7d]") ∧
    ¬ (∀ n, labelAt (dials twoDials).domain n = labelAt (dials twoDials.reverse).domain n) ∧
    ¬ (∀ i j x y, labelAt (dials twoDials).domain i = some x →
      labelAt (dials twoDials.reverse).domain j = some y → x.1 = y.1 → x = y) := by
  have accepted := congrArg Sha256.hex signature_dials_reverse
  obtain ⟨sequence, names⟩ := sameNumbering_iff (dials twoDials) (dials twoDials.reverse)
    declared_dials.1 declared_dials.2 (fun _ => signature_dials_reverse) accepted
  exact ⟨accepted, rfl, rfl, fun same => not_turnsLike_dials_reverse (sequence.mp same).2,
    fun agree => not_turnsLike_dials_reverse (names.mp agree)⟩

end Config

end GridSweep
