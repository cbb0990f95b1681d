import GridSweep.Proofs.Config.Items

/-!
What a file is built into. A file without an offending declaration is one whose names are not blank, whose
declarations are sound, and where no model has a parameter twice (`SweepFile.clean_items_iff`). It is built,
its models in the order of their first occurrence and each with the parameters of all its entries; any
other file fails with the fault of the first declaration that offends (`Config.ofFile_exact`).
-/
namespace GridSweep

namespace SweepFile

namespace Item

/-- What a declaration needs that nothing before it can give or take. -/
def Admissible : Item → Prop
  | ofModel name => isBlankText name = false
  | ofParameter model p =>
    isBlankText model = false ∧ isBlankText p.name = false ∧ p.spec.Sound

def Fresh (l : List Item) : Item → Prop
  | ofModel _ => True
  | ofParameter model p => p.name ∉ (parametersOf l model).map (·.name)

theorem ranged_of_inoffensive {l : List Item} {model : String} {p : ParameterDecl}
    (inoffensive : ∀ fault, ¬ Offends l (.ofParameter model p) fault) : p.spec.Ranged := by
  by_contra empty
  obtain ⟨fault, offends, -⟩ := fault_of_not_ranged empty
  exact inoffensive fault (offends l)

theorem sound_of_inoffensive {l : List Item} {model : String} {p : ParameterDecl}
    (inoffensive : ∀ fault, ¬ Offends l (.ofParameter model p) fault)
    (named : isBlankText p.name = false) : p.spec.Sound := by
  have ranged : p.spec.Ranged := ranged_of_inoffensive inoffensive
  obtain ⟨name, spec⟩ := p
  cases spec with
  | fixed | linear | exponential => exact ranged
  | categorical values =>
    rintro rfl
    exact inoffensive _ (.categorical named)
  | distribution mean stddev =>
    by_contra unsound
    exact inoffensive _ (.distribution named unsound)

theorem inoffensive_iff {l : List Item} {i : Item} :
    (∀ fault, ¬ i.Offends l fault) ↔ i.Admissible ∧ i.Fresh l := by
  cases i with
  | ofModel name =>
    constructor
    · intro inoffensive
      exact ⟨Bool.eq_false_iff.mpr fun blank => inoffensive _ (.model blank), trivial⟩
    · rintro ⟨named, -⟩ fault ⟨blank⟩
      cases named.symm.trans blank
  | ofParameter model p =>
    constructor
    · -- each check presumes those before it, so they are settled in their order
      intro inoffensive
      have named : isBlankText p.name = false := Bool.eq_false_iff.mpr fun blank =>
        inoffensive _ (.name (ranged_of_inoffensive inoffensive) blank)
      have sound : p.spec.Sound := sound_of_inoffensive inoffensive named
      have fresh : p.name ∉ (parametersOf l model).map (·.name) := fun twice =>
        inoffensive _ (.duplicate named sound twice)
      have named' : isBlankText model = false := Bool.eq_false_iff.mpr fun blank =>
        inoffensive _ (.owner named sound fresh blank)
      exact ⟨⟨named', named, sound⟩, fresh⟩
    · rintro ⟨⟨named', named, sound⟩, fresh⟩ fault offends
      cases offends with
      | linear empty => exact empty sound
      | exponential empty => exact empty sound
      | name ranged blank => cases named.symm.trans blank
      | categorical => exact sound rfl
      | distribution _ unsound => exact unsound sound
      | duplicate _ _ twice => exact fresh twice
      | owner _ _ _ blank => cases named'.symm.trans blank

theorem nodup_concat_iff {l : List Item} {i : Item} :
    (∀ model, ((parametersOf (l ++ [i]) model).map (·.name)).Nodup) ↔
      (∀ model, ((parametersOf l model).map (·.name)).Nodup) ∧ i.Fresh l := by
  cases i with
  | ofModel name => simp [parametersOf_concat_ofModel, Fresh]
  | ofParameter owner p =>
    have own : ((parametersOf l owner ++ [p]).map (·.name)).Nodup ↔
        ((parametersOf l owner).map (·.name)).Nodup ∧ Fresh l (.ofParameter owner p) := by
      rw [List.map_append, List.map_singleton, List.nodup_append_comm, List.singleton_append,
        List.nodup_cons, and_comm]
      exact Iff.rfl
    simp only [parametersOf_concat_ofParameter]
    constructor
    · intro distinct
      have here := own.mp (by simpa using distinct owner)
      refine ⟨fun model => ?_, here.2⟩
      by_cases same : owner = model
      · exact same ▸ here.1
      · simpa [same] using distinct model
    · rintro ⟨distinct, fresh⟩ model
      split
      · rename_i same
        exact same ▸ own.mpr ⟨distinct owner, fresh⟩
      · exact distinct model

theorem clean_iff {l : List Item} : Clean l ↔
    (∀ i ∈ l, i.Admissible) ∧ ∀ model, ((parametersOf l model).map (·.name)).Nodup := by
  induction l using List.reverseRecOn with
  | nil => exact ⟨fun _ => ⟨by simp, fun _ => List.nodup_nil⟩, fun _ => clean_nil⟩
  | append_singleton l i ih =>
    rw [clean_concat, ih, inoffensive_iff, nodup_concat_iff, List.forall_mem_append,
      List.forall_mem_singleton]
    tauto

end Item

variable {f : SweepFile}

def modelNames (f : SweepFile) : List String := (f.models.map (·.name)).eraseDups

def parametersOf (f : SweepFile) (model : String) : List ParameterDecl :=
  (f.models.filter (·.name = model)).flatMap (·.parameters)

structure Sound (f : SweepFile) : Prop where
  models : ∀ m ∈ f.models, isBlankText m.name = false
  parameters : ∀ m ∈ f.models, ∀ p ∈ m.parameters, isBlankText p.name = false
  specs : ∀ m ∈ f.models, ∀ p ∈ m.parameters, p.spec.Sound
  distinct : ∀ model, ((f.parametersOf model).map (·.name)).Nodup

/-- Each model of a file with its parameters, their ranges written out. -/
def listing (f : SweepFile) : List (String × List (String × ParameterKind)) :=
  f.modelNames.map fun model =>
    (model, (f.parametersOf model).map fun p => (p.name, p.spec.expanded))

theorem parametersOf_itemsOf (m : ModelDecl) (model : String) :
    Item.parametersOf (itemsOf m) model = if m.name = model then m.parameters else [] := by
  rw [Item.parametersOf, itemsOf, List.filterMap_cons_none rfl, List.filterMap_map]
  by_cases same : m.name = model <;> simp [Function.comp_def, Item.parameterOf?, same]

theorem parametersOf_items (f : SweepFile) (model : String) :
    Item.parametersOf f.items model = f.parametersOf model := by
  rw [Item.parametersOf, items, List.filterMap_flatMap, parametersOf]
  induction f.models with
  | nil => rfl
  | cons m rest ih =>
    have block := parametersOf_itemsOf m model
    rw [Item.parametersOf] at block
    by_cases same : m.name = model <;> simp [block, same, ih]

theorem eraseDups_append_same (l : List String) {block : List String} {x : String}
    (same : ∀ y ∈ block, y = x) : (l ++ x :: block).eraseDups = (l ++ [x]).eraseDups := by
  induction block using List.reverseRecOn with
  | nil => rfl
  | append_singleton block y ih =>
    obtain rfl : y = x := same y (by simp)
    rw [← List.cons_append, ← List.append_assoc, Item.eraseDups_concat, if_pos (by simp)]
    exact ih fun z hz => same z (List.mem_append_left _ hz)

theorem eraseDups_append_owners (l : List String) (m : ModelDecl) :
    (l ++ (itemsOf m).map Item.owner).eraseDups = (l ++ [m.name]).eraseDups := by
  refine eraseDups_append_same l fun y hy => ?_
  obtain ⟨p, -, rfl⟩ := List.mem_map.mp (List.map_map ▸ hy)
  rfl

theorem modelNames_items (f : SweepFile) : (f.items.map Item.owner).eraseDups = f.modelNames := by
  unfold items modelNames
  -- from the end: the last model adds its name only where no entry before it has that name
  induction f.models using List.reverseRecOn with
  | nil => rfl
  | append_singleton front m ih =>
    have known : m.name ∈ (front.flatMap itemsOf).map Item.owner ↔ m.name ∈ front.map (·.name) := by
      rw [← List.mem_eraseDups, ih, List.mem_eraseDups]
    rw [List.flatMap_append, List.flatMap_singleton, List.map_append, List.map_append,
      List.map_singleton, eraseDups_append_owners, Item.eraseDups_concat, Item.eraseDups_concat, ih]
    simp only [known]

theorem clean_items_iff : Item.Clean f.items ↔ f.Sound := by
  rw [Item.clean_iff]
  simp only [parametersOf_items]
  have admissible : (∀ i ∈ f.items, i.Admissible) ↔ ∀ m ∈ f.models, isBlankText m.name = false ∧
      ∀ p ∈ m.parameters, isBlankText p.name = false ∧ p.spec.Sound := by
    simp only [items, itemsOf, List.forall_mem_flatMap, List.forall_mem_cons, List.forall_mem_map,
      Item.Admissible]
    refine forall₂_congr fun m _ => and_congr_right fun named => ?_
    simp [named]
  rw [admissible]
  constructor
  · rintro ⟨each, distinct⟩
    exact ⟨fun m hm => (each m hm).1, fun m hm p hp => ((each m hm).2 p hp).1,
      fun m hm p hp => ((each m hm).2 p hp).2, distinct⟩
  · intro sound
    exact ⟨fun m hm => ⟨sound.models m hm, fun p hp =>
      ⟨sound.parameters m hm p hp, sound.specs m hm p hp⟩⟩, sound.distinct⟩

theorem foldlM_items (models : List ModelDecl) (d : Domain) :
    (models.flatMap itemsOf).foldlM Item.declare d = models.foldlM Config.declareModel d := by
  induction models generalizing d with
  | nil => rfl
  | cons m rest ih =>
    rw [List.flatMap_cons, List.foldlM_append, itemsOf, List.foldlM_cons, List.foldlM_cons]
    simp only [ih, List.foldlM_map]
    rfl

end SweepFile

def Domain.listing (d : Domain) : List (String × List (String × ParameterKind)) :=
  Entries.mapValues Table.entries d.models.entries

theorem SweepFile.Item.Built.listing {l : List Item} {d : Domain} (built : Built l d) :
    d.listing = (l.map owner).eraseDups.map fun model =>
      (model, (parametersOf l model).map fun p => (p.name, p.spec.expanded)) := by
  rw [← built.models, Table.names, List.map_map]
  refine List.map_congr_left fun m hm => ?_
  have known : d.parameters? m.1 = some m.2 := Entries.find?_of_mem d.models.distinct hm
  rw [Function.comp_apply, ← built.parameters m.1, known]
  rfl

namespace Config

structure TakenFrom (c : Config) (f : SweepFile) (base : String) : Prop where
  domain : c.domain.listing = f.listing
  name : c.name = f.name
  constraints : c.constraints = f.constraints
  directory : c.checkpoint.directory = Path.join base f.checkpoint.directory
  interval : c.checkpoint.interval = f.checkpoint.interval

theorem declareAll_eq (f : SweepFile) :
    declareAll f.models = SweepFile.Item.declareList f.items :=
  (SweepFile.foldlM_items f.models .empty).symm

theorem ofFile_of_sound {f : SweepFile} (sound : f.Sound) (base : String) :
    ∃ c, ofFile f base = .ok c ∧ c.TakenFrom f base := by
  obtain ⟨d, made, built⟩ := (SweepFile.clean_items_iff.mpr sound).built
  have listing : d.listing = f.listing := by
    rw [built.listing, f.modelNames_items]
    simp only [SweepFile.parametersOf_items]
    rfl
  rw [ofFile, declareAll_eq, made]
  exact ⟨_, rfl, ⟨listing, rfl, rfl, rfl, rfl⟩⟩

theorem ofFile_of_firstFault {f : SweepFile} {fault : Domain.Fault}
    (first : SweepFile.Item.FirstFault f.items fault) (base : String) :
    ofFile f base = .error fault := by
  rw [ofFile, declareAll_eq, first.declareList]
  rfl

theorem sound_or_firstFault (f : SweepFile) :
    f.Sound ∨ ∃ fault, SweepFile.Item.FirstFault f.items fault := by
  obtain ⟨_, -, clean, -⟩ | ⟨fault, -, first⟩ := SweepFile.Item.declareList_cases f.items
  · exact .inl (SweepFile.clean_items_iff.mp clean)
  · exact .inr ⟨fault, first⟩

/-- A file is built exactly when it is sound, and then into what it declares; else its fault is that of
the first declaration that offends. -/
theorem ofFile_exact (f : SweepFile) (base : String) :
    ((∃ c, ofFile f base = .ok c) ↔ f.Sound) ∧
      (∀ c, ofFile f base = .ok c → c.TakenFrom f base) ∧
      ∀ fault, ofFile f base = .error fault ↔ SweepFile.Item.FirstFault f.items fault := by
  obtain sound | ⟨first, offends⟩ := sound_or_firstFault f
  · obtain ⟨c, built, taken⟩ := ofFile_of_sound sound base
    refine ⟨⟨fun _ => sound, fun _ => ⟨c, built⟩⟩, fun e h => ?_, fun fault => ?_⟩
    · obtain rfl := Except.ok.inj (built.symm.trans h)
      exact taken
    · constructor
      · intro failed
        cases built.symm.trans failed
      · intro first
        exact ofFile_of_firstFault first base
  · have failed : ofFile f base = .error first := ofFile_of_firstFault offends base
    refine ⟨⟨?_, fun sound => ?_⟩, fun c h => ?_, fun fault => ?_⟩
    · rintro ⟨c, built⟩
      cases failed.symm.trans built
    · obtain ⟨c, built, -⟩ := ofFile_of_sound sound base
      exact ⟨c, built⟩
    · cases failed.symm.trans h
    · constructor
      · intro same
        obtain rfl := Except.error.inj (failed.symm.trans same)
        exact offends
      · intro first
        exact ofFile_of_firstFault first base

/-- Two entries of one model around another model. -/
def interleaved : SweepFile :=
  ⟨none, .standard, [], [⟨"small", [⟨"width", .linear 1 6 2⟩]⟩, ⟨"large", []⟩,
    ⟨"small", [⟨"depth", .exponential 0 2⟩]⟩]⟩

/-- A range without candidates under a name that is there already, before a blank name. -/
def offending : SweepFile :=
  ⟨none, .standard, [], [⟨"small", [⟨"width", .fixed .null⟩]⟩,
    ⟨"small", [⟨"width", .linear 1 6 0⟩, ⟨" ", .fixed .null⟩]⟩]⟩

theorem ofFile_exact_interleaved :
    (∃ c, ofFile interleaved "runs" = .ok c ∧ c.domain.listing =
      [("small", [("width", .categorical [.ofInt 1, .ofInt 3, .ofInt 5]),
          ("depth", .categorical [.ofInt 1, .ofInt 2, .ofInt 4])]),
        ("large", [])]) ∧
      ofFile offending "runs" = .error (.emptyLinear 1 6 0) := by
  have sound : interleaved.Sound :=
    { models := by decide
      parameters := by decide
      specs := by simp [interleaved, ParameterSpec.Sound]
      distinct := fun model => by
        by_cases small : "small" = model <;> by_cases large : "large" = model <;>
          simp [SweepFile.parametersOf, interleaved, small, large] }
  have first : SweepFile.Item.FirstFault offending.items (.emptyLinear 1 6 0) := by
    refine ⟨[.ofModel "small", .ofParameter "small" ⟨"width", .fixed .null⟩, .ofModel "small"], _,
      _, rfl, SweepFile.Item.clean_iff.mpr ⟨?_, fun model => ?_⟩, .linear (by decide)⟩
    · have small : isBlankText "small" = false := by decide
      have width : isBlankText "width" = false := by decide
      simp [SweepFile.Item.Admissible, ParameterSpec.Sound, small, width]
    · by_cases small : "small" = model <;>
        simp [SweepFile.Item.parametersOf, List.filterMap_cons, SweepFile.Item.parameterOf?, small]
  obtain ⟨c, built⟩ := (ofFile_exact interleaved "runs").1.mpr sound
  have taken : c.TakenFrom interleaved "runs" := (ofFile_exact interleaved "runs").2.1 c built
  exact ⟨⟨c, built, taken.domain.trans rfl⟩,
    ((ofFile_exact offending "runs").2.2 (.emptyLinear 1 6 0)).mpr first⟩

end Config

end GridSweep
