import GridSweep.Files.Tree

namespace GridSweep.Files.Tree

/-- The second tree has at least the directories of the first and the same place to start from. -/
structure Keeps (t u : Tree) : Prop where
  home : u.home = t.home
  directories : ∀ l, t.find? l = some .directory → u.find? l = some .directory

theorem Keeps.refl (t : Tree) : Keeps t t := ⟨rfl, fun _ h => h⟩

theorem Keeps.trans {t u v : Tree} (first : Keeps t u) (second : Keeps u v) : Keeps t v :=
  ⟨second.home.trans first.home, fun l h => second.directories l (first.directories l h)⟩

theorem find?_place (t : Tree) {l : Location} (named : l ≠ []) (e : Entry) (other : Location) :
    (t.place l e).find? other = if other = l then some e else t.find? other := by
  cases other with
  | nil => rw [if_neg fun same => named same.symm]; rfl
  | cons name rest =>
    simp only [find?, place, erase, List.isEmpty_cons, Bool.false_eq_true, if_false,
      List.find?_cons]
    by_cases same : name :: rest = l
    · simp [same]
    · have differs : (l == name :: rest) = false := beq_false_of_ne fun h => same h.symm
      rw [if_neg same, differs, List.find?_filter]
      dsimp only
      congr 2
      funext entry
      by_cases here : entry.1 = name :: rest
      · simp [here, same]
      · simp [here]

theorem keeps_place_file {t : Tree} {l : Location} (vacant : t.find? l ≠ some .directory)
    (bytes : ByteArray) : Keeps t (t.place l (.file bytes)) := by
  have named : l ≠ [] := by
    rintro rfl
    exact vacant rfl
  refine ⟨rfl, fun other directory => ?_⟩
  rw [find?_place t named]
  split
  · rename_i same
    exact absurd (same ▸ directory) vacant
  · exact directory

theorem keeps_place_directory {t : Tree} {l : Location} (named : l ≠ []) :
    Keeps t (t.place l .directory) := by
  refine ⟨rfl, fun other directory => ?_⟩
  rw [find?_place t named]
  split
  · rfl
  · exact directory

theorem enter_of_keeps {t u : Tree} (keeps : Keeps t u) {names : List String} {l end_ : Location}
    (entered : t.enter l names = .ok end_) : u.enter l names = .ok end_ := by
  induction names generalizing l with
  | nil => exact entered
  | cons name rest ih =>
    unfold enter at entered ⊢
    cases followed : follow l name with
    | error e =>
      rw [followed] at entered
      cases entered
    | ok next =>
      rw [followed] at entered
      simp only [bind, Except.bind] at entered ⊢
      cases there : t.find? next with
      | none =>
        rw [there] at entered
        cases entered
      | some e =>
        cases e with
        | file bytes =>
          rw [there] at entered
          cases entered
        | directory =>
          rw [there] at entered
          rw [keeps.directories next there]
          exact ih entered

theorem resolve_of_keeps {t u : Tree} (keeps : Keeps t u) {path : String} {r : Location × Bool}
    (resolved : t.resolve path = .ok r) : u.resolve path = .ok r := by
  unfold resolve at resolved ⊢
  rw [keeps.home]
  split at resolved
  · cases resolved
  · rename_i clean
    rw [if_neg clean]
    split at resolved
    · cases resolved
    · rename_i nonempty
      rw [if_neg nonempty]
      split at resolved
      · cases resolved
      · rename_i short
        rw [if_neg short]
        simp only at resolved ⊢
        split at resolved
        · exact resolved
        · simp only [bind, Except.bind] at resolved ⊢
          split at resolved
          · cases resolved
          · rename_i directory entered
            rw [enter_of_keeps keeps entered]
            exact resolved

theorem isDirectory_iff {t : Tree} {path : String} :
    t.isDirectory path = true ↔
      ∃ l proper, t.resolve path = .ok (l, proper) ∧ t.find? l = some .directory := by
  unfold isDirectory entry
  cases resolved : t.resolve path with
  | error e => simp [bind, Except.bind]
  | ok r =>
    obtain ⟨l, proper⟩ := r
    cases there : t.find? l with
    | none => simp [bind, Except.bind, there]
    | some e =>
      cases e with
      | directory => simp [bind, Except.bind, there, pure, Except.pure]
      | file bytes =>
        by_cases wants : Path.wantsDirectory path = true
        · simp [bind, Except.bind, there, wants]
        · simp [bind, Except.bind, there, wants, pure, Except.pure]

theorem isDirectory_of_keeps {t u : Tree} (keeps : Keeps t u) {path : String}
    (h : t.isDirectory path = true) : u.isDirectory path = true := by
  obtain ⟨l, proper, resolved, there⟩ := isDirectory_iff.mp h
  exact isDirectory_iff.mpr
    ⟨l, proper, resolve_of_keeps keeps resolved, keeps.directories l there⟩

theorem makeDirectory_eq_place {t u : Tree} {path : String} (made : t.makeDirectory path = .ok u) :
    ∃ l proper, t.resolve path = .ok (l, proper) ∧ t.find? l = none ∧ u = t.place l .directory := by
  unfold makeDirectory at made
  cases resolved : t.resolve path with
  | error e =>
    rw [resolved] at made
    cases made
  | ok r =>
    obtain ⟨l, proper⟩ := r
    rw [resolved] at made
    simp only [bind, Except.bind] at made
    split at made
    · cases made
    · rename_i vacant
      rw [Bool.or_eq_true, not_or] at vacant
      exact ⟨l, proper, rfl, by simpa using vacant.2, (Except.ok.inj made).symm⟩

theorem makeDirectory_eq_ok {t u : Tree} {path : String} (made : t.makeDirectory path = .ok u) :
    Keeps t u ∧ u.isDirectory path = true := by
  obtain ⟨l, proper, resolved, free, rfl⟩ := makeDirectory_eq_place made
  have named : l ≠ [] := by
    rintro rfl
    cases free
  have keeps := keeps_place_directory (t := t) named
  refine ⟨keeps, isDirectory_iff.mpr ⟨l, proper, resolve_of_keeps keeps resolved, ?_⟩⟩
  rw [find?_place t named, if_pos rfl]

theorem makeDirectory_of_isDirectory {t : Tree} {path : String} (h : t.isDirectory path = true) :
    t.makeDirectory path = .error .alreadyExists := by
  obtain ⟨l, proper, resolved, there⟩ := isDirectory_iff.mp h
  simp [makeDirectory, resolved, there, bind, Except.bind]

/-- The path is the empty one or that of a directory, so that nothing has to be made. -/
def Made (t : Tree) (path : String) : Prop := path.isEmpty = true ∨ t.isDirectory path = true

theorem makeChain_of_made {t : Tree} {path : String} (made : t.Made path)
    (ancestors : List String) : makeChain (path :: ancestors) t = (.ok (), t) := by
  rw [makeChain]
  by_cases empty : path.isEmpty = true
  · rw [if_pos empty]
  · rcases made with empty' | directory
    · exact absurd empty' empty
    · simp only [if_neg empty, makeDirectory_of_isDirectory directory, directory, if_true]

theorem makeChain_eq_ok (paths : List String) {t u : Tree}
    (made : makeChain paths t = (.ok (), u)) :
    Keeps t u ∧ ∀ path ∈ paths.head?, u.Made path := by
  induction paths generalizing t u with
  | nil => cases made
  | cons path ancestors ih =>
    rw [List.head?_cons]
    rw [makeChain] at made
    split at made
    · rename_i empty
      obtain rfl : t = u := (Prod.mk.inj made).2
      refine ⟨Keeps.refl t, fun p hp => ?_⟩
      cases hp
      exact .inl empty
    · split at made
      · rename_i placed
        obtain rfl := (Prod.mk.inj made).2
        obtain ⟨keeps, directory⟩ := makeDirectory_eq_ok placed
        refine ⟨keeps, fun p hp => ?_⟩
        cases hp
        exact .inr directory
      · split at made
        · cases (Prod.mk.inj made).1
        · rename_i grown
          have first := (ih grown).1
          split at made
          · rename_i placed
            obtain rfl := (Prod.mk.inj made).2
            obtain ⟨keeps, directory⟩ := makeDirectory_eq_ok placed
            refine ⟨first.trans keeps, fun p hp => ?_⟩
            cases hp
            exact .inr directory
          · split at made
            · rename_i directory
              obtain rfl := (Prod.mk.inj made).2
              refine ⟨first, fun p hp => ?_⟩
              cases hp
              exact .inr directory
            · cases (Prod.mk.inj made).1
      · split at made
        · rename_i directory
          obtain rfl := (Prod.mk.inj made).2
          refine ⟨Keeps.refl _, fun p hp => ?_⟩
          cases hp
          exact .inr directory
        · cases (Prod.mk.inj made).1

theorem makeDirectories_eq_ok {t u : Tree} {path : String}
    (made : t.makeDirectories path = (.ok (), u)) : Keeps t u ∧ u.Made path := by
  obtain ⟨keeps, first⟩ := makeChain_eq_ok _ made
  exact ⟨keeps, first path rfl⟩

theorem makeDirectories_of_made {t : Tree} {path : String} (made : t.Made path) :
    t.makeDirectories path = (.ok (), t) :=
  makeChain_of_made made _

theorem Made.of_keeps {t u : Tree} (keeps : Keeps t u) {path : String} (made : t.Made path) :
    u.Made path :=
  made.imp_right (isDirectory_of_keeps keeps)

/-- The path leads to a place for a file: no directory is there. -/
structure FileAt (t : Tree) (path : String) (l : Location) : Prop where
  resolved : ∃ proper, t.resolve path = .ok (l, proper)
  vacant : t.find? l ≠ some .directory
  plain : Path.wantsDirectory path = false

theorem write_eq_ok {t u : Tree} {path : String} {bytes : ByteArray}
    (written : t.write path bytes = .ok u) :
    ∃ l, t.FileAt path l ∧ u = t.place l (.file bytes) := by
  unfold write at written
  cases resolved : t.resolve path with
  | error e =>
    rw [resolved] at written
    cases written
  | ok r =>
    obtain ⟨l, proper⟩ := r
    rw [resolved] at written
    simp only [bind, Except.bind] at written
    split at written
    · cases written
    · rename_i there
      split at written
      · cases written
      · rename_i plain
        refine ⟨l, ⟨⟨proper, resolved⟩, ?_, Bool.eq_false_iff.mpr plain⟩, (Except.ok.inj written).symm⟩
        rw [there]
        rintro ⟨⟩
    · rename_i there
      split at written
      · cases written
      · rename_i plain
        refine ⟨l, ⟨⟨proper, resolved⟩, ?_, Bool.eq_false_iff.mpr plain⟩, (Except.ok.inj written).symm⟩
        rw [there]
        rintro ⟨⟩

theorem FileAt.write {t : Tree} {path : String} {l : Location} (h : t.FileAt path l)
    (bytes : ByteArray) : t.write path bytes = .ok (t.place l (.file bytes)) := by
  obtain ⟨⟨proper, resolved⟩, vacant, plain⟩ := h
  simp only [Tree.write, resolved, bind, Except.bind, plain, Bool.false_eq_true, if_false]
  cases there : t.find? l with
  | none => rfl
  | some e =>
    cases e with
    | file old => rfl
    | directory => exact absurd there vacant

theorem FileAt.read_place {t : Tree} {path : String} {l : Location} (h : t.FileAt path l)
    (bytes : ByteArray) : (t.place l (.file bytes)).read path = .ok bytes := by
  have keeps := keeps_place_file h.vacant bytes
  obtain ⟨⟨proper, resolved⟩, vacant, plain⟩ := h
  have named : l ≠ [] := by
    rintro rfl
    exact vacant rfl
  have there : (t.place l (.file bytes)).find? l = some (.file bytes) := by
    rw [find?_place t named, if_pos rfl]
  simp only [read, entry, resolve_of_keeps keeps resolved, there, bind, Except.bind, plain,
    Bool.false_eq_true, if_false]
  rfl

theorem FileAt.place {t : Tree} {path : String} {l : Location} (h : t.FileAt path l)
    (bytes : ByteArray) : (t.place l (.file bytes)).FileAt path l := by
  have keeps := keeps_place_file h.vacant bytes
  obtain ⟨⟨proper, resolved⟩, vacant, plain⟩ := h
  have named : l ≠ [] := by
    rintro rfl
    exact vacant rfl
  refine ⟨⟨proper, resolve_of_keeps keeps resolved⟩, ?_, plain⟩
  rw [find?_place t named, if_pos rfl]
  rintro ⟨⟩

end GridSweep.Files.Tree
