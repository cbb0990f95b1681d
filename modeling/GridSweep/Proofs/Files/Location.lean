import GridSweep.Proofs.Files.Writing

/-!
Where a path leads. Without links a location can be read off the path alone (`resolve_eq_ok`), so two
names in one directory never lead to the same place. Making directories changes no file, whether it
comes to its end or not (`makeDirectories_grows`).
-/
namespace GridSweep

namespace Path

/-- A name that is a single part of a path and names something of its own. -/
structure IsName (name : String) : Prop where
  whole : '/' ∉ name.toList
  nonempty : name ≠ ""
  proper : name ≠ "." ∧ name ≠ ".."

theorem splitChars_of_whole {l : List Char} (whole : '/' ∉ l) : splitChars l = [l] := by
  induction l with
  | nil => rfl
  | cons c rest ih =>
    obtain ⟨first, later⟩ := List.ne_and_not_mem_of_not_mem_cons whole
    simp [splitChars, Ne.symm first, ih later]

theorem splitChars_ne_nil (l : List Char) : splitChars l ≠ [] := by
  cases l with
  | nil => simp [splitChars]
  | cons c rest =>
    rw [splitChars]
    split
    · simp
    · split <;> simp

theorem splitChars_append (l m : List Char) :
    splitChars (l ++ '/' :: m) = splitChars l ++ splitChars m := by
  induction l with
  | nil => simp [splitChars]
  | cons c rest ih =>
    rw [List.cons_append, splitChars, splitChars, ih]
    split
    · rfl
    · obtain ⟨part, parts, split⟩ := List.exists_cons_of_ne_nil (splitChars_ne_nil rest)
      simp [split]

theorem components_append {directory name : String} (plain : IsName name) :
    components (directory ++ "/" ++ name) = components directory ++ [name] := by
  have text : (directory ++ "/" ++ name).toList = directory.toList ++ '/' :: name.toList := by simp
  have last : (name != "") = true := by simpa using plain.nonempty
  simp only [components, parts, text, splitChars_append, splitChars_of_whole plain.whole]
  simp [last]

theorem components_of_slash {directory : String} :
    components (directory ++ "/") = components directory := by
  have text : (directory ++ "/").toList = directory.toList ++ '/' :: [] := by simp
  simp only [components, parts, text, splitChars_append]
  simp [splitChars]

theorem isAbsolute_of_whole {name : String} (whole : '/' ∉ name.toList) :
    isAbsolute name = false := by
  unfold isAbsolute
  cases text : name.toList with
  | nil => rfl
  | cons c rest =>
    rw [text] at whole
    have first := (List.ne_and_not_mem_of_not_mem_cons whole).1
    simpa using Ne.symm first

theorem isAbsolute_append {a b : String} (h : a ≠ "") : isAbsolute (a ++ b) = isAbsolute a := by
  unfold isAbsolute
  cases text : a.toList with
  | nil => exact absurd (String.toList_eq_nil_iff.mp text) h
  | cons c rest => simp [text]

theorem components_of_name {name : String} (plain : IsName name) : components name = [name] := by
  have last : (name != "") = true := by simpa using plain.nonempty
  simp [components, parts, splitChars_of_whole plain.whole, last]

theorem eq_append_slash {directory : String} (h : directory.toList.getLast? = some '/') :
    ∃ rest, directory = rest ++ "/" := by
  obtain ⟨front, text⟩ := List.getLast?_eq_some_iff.mp h
  refine ⟨String.ofList front, ?_⟩
  rw [← String.toList_inj, text]
  simp

theorem components_join (directory : String) {name : String} (plain : IsName name) :
    components (join directory name) = components directory ++ [name] ∧
      isAbsolute (join directory name) = isAbsolute directory := by
  have relative := isAbsolute_of_whole plain.whole
  rw [join, relative, Bool.false_or]
  by_cases empty : directory.isEmpty = true
  · rw [if_pos empty]
    obtain rfl := String.isEmpty_iff.mp empty
    exact ⟨components_of_name plain, relative⟩
  have nonempty : directory ≠ "" := by simpa using empty
  rw [if_neg empty]
  by_cases slash : directory.toList.getLast? = some '/'
  · obtain ⟨rest, rfl⟩ := eq_append_slash slash
    rw [if_pos (by simp)]
    constructor
    · rw [components_append plain, components_of_slash]
    · exact isAbsolute_append nonempty
  · rw [if_neg (by simpa using slash)]
    constructor
    · exact components_append plain
    · rw [String.append_assoc]
      exact isAbsolute_append nonempty

def descend (l : Files.Location) (name : String) : Files.Location :=
  if name = "." then l else if name = ".." then l.dropLast else l ++ [name]

/-- The location of a path seen from a home, if every directory on the way is there. -/
def locate (home : Files.Location) (path : String) : Files.Location :=
  (components path).foldl descend (if isAbsolute path then [] else home)

theorem locate_join {home : Files.Location} {directory name : String} (plain : IsName name) :
    locate home (join directory name) = locate home directory ++ [name] := by
  obtain ⟨parts, absolute⟩ := components_join directory plain
  simp [locate, parts, absolute, descend, plain.proper]

theorem locate_join_inj {home : Files.Location} {directory a b : String} (ha : IsName a)
    (hb : IsName b) : locate home (join directory a) = locate home (join directory b) ↔ a = b := by
  simp [locate_join ha, locate_join hb]

theorem toList_join (directory name : String) :
    ∃ front, (join directory name).toList = front ++ name.toList := by
  unfold join
  split
  · exact ⟨[], rfl⟩
  · split
    · exact ⟨directory.toList, String.toList_append⟩
    · exact ⟨directory.toList ++ ['/'], by simp⟩

theorem wantsDirectory_join {directory name : String} (plain : IsName name) :
    wantsDirectory (join directory name) = false := by
  obtain ⟨front, text⟩ := toList_join directory name
  have named : name.toList ≠ [] := by simpa using plain.nonempty
  have last : name.toList.getLast? = some (name.toList.getLast named) :=
    List.getLast?_eq_some_getLast named
  rw [wantsDirectory, text, List.getLast?_append, last, Option.some_or, beq_eq_false_iff_ne]
  intro slash
  exact plain.whole (List.mem_of_getLast? (last.trans slash))

end Path

namespace Files.Tree

open GridSweep.Path

variable {t u : Tree} {path : String} {l : Location}

theorem follow_eq_ok {name : String} {next : Location} (h : follow l name = .ok next) :
    next = descend l name := by
  unfold follow at h
  unfold descend
  split at h
  · rename_i here
    rw [if_pos (by simpa using here)]
    exact (Except.ok.inj h).symm
  · rename_i here
    rw [if_neg (by simpa using here)]
    split at h
    · rename_i up
      rw [if_pos (by simpa using up)]
      exact (Except.ok.inj h).symm
    · rename_i up
      rw [if_neg (by simpa using up)]
      split at h
      · cases h
      · exact (Except.ok.inj h).symm

theorem enter_eq_ok {names : List String} {end_ : Location} (h : t.enter l names = .ok end_) :
    end_ = names.foldl descend l := by
  induction names generalizing l with
  | nil => exact (Except.ok.inj h).symm
  | cons name rest ih =>
    unfold enter at h
    cases followed : follow l name with
    | error e =>
      rw [followed] at h
      cases h
    | ok next =>
      rw [followed] at h
      simp only [bind, Except.bind] at h
      rw [List.foldl_cons, ← follow_eq_ok followed]
      split at h
      · cases h
      · cases h
      · exact ih h

def origin (t : Tree) (path : String) : Location := if isAbsolute path then [] else t.home

/-- What a path that leads anywhere has on the way. -/
theorem resolve_cases {proper : Bool} (h : t.resolve path = .ok (l, proper)) :
    (components path = [] ∧ l = t.origin path) ∨
      ∃ front last directory, components path = front ++ [last] ∧
        t.enter (t.origin path) front = .ok directory ∧ follow directory last = .ok l := by
  unfold resolve at h
  split at h
  · cases h
  · split at h
    · cases h
    · split at h
      · cases h
      · simp only at h
        split at h
        · rename_i none
          rw [List.getLast?_eq_none_iff] at none
          cases h
          exact .inl ⟨none, rfl⟩
        · rename_i last known
          obtain ⟨front, names⟩ := List.getLast?_eq_some_iff.mp known
          rw [names, List.dropLast_concat] at h
          cases entered : t.enter (t.origin path) front with
          | error e =>
            rw [origin] at entered
            simp only [entered, bind, Except.bind] at h
            cases h
          | ok directory =>
            rw [origin] at entered
            cases followed : follow directory last with
            | error e =>
              simp only [entered, followed, bind, Except.bind] at h
              cases h
            | ok next =>
              simp only [entered, followed, bind, Except.bind] at h
              cases h
              exact .inr ⟨front, last, directory, names, entered, followed⟩

theorem resolve_eq_ok {proper : Bool} (h : t.resolve path = .ok (l, proper)) :
    l = locate t.home path := by
  rcases resolve_cases h with ⟨none, rfl⟩ | ⟨front, last, directory, names, entered, followed⟩
  · rw [locate, none]
    rfl
  · rw [locate, names, List.foldl_append, List.foldl_cons, List.foldl_nil,
      follow_eq_ok followed, enter_eq_ok entered]
    rfl

theorem enter_concat {front : List String} {last : String} {start directory : Location}
    (entered : t.enter start front = .ok directory) (followed : follow directory last = .ok l)
    (there : t.find? l = some .directory) : t.enter start (front ++ [last]) = .ok l := by
  induction front generalizing start with
  | nil =>
    obtain rfl := Except.ok.inj entered
    simp [enter, followed, there, bind, Except.bind]
  | cons name rest ih =>
    rw [List.cons_append]
    unfold enter at entered ⊢
    cases first : follow start name with
    | error e =>
      rw [first] at entered
      cases entered
    | ok next =>
      rw [first] at entered
      simp only [bind, Except.bind] at entered ⊢
      split at entered
      · cases entered
      · cases entered
      · exact ih entered

theorem Made.enter {directory : String} (made : t.Made directory) :
    t.enter (t.origin directory) (components directory) = .ok (locate t.home directory) := by
  rcases made with empty | there
  · obtain rfl := String.isEmpty_iff.mp empty
    rfl
  · obtain ⟨l, proper, resolved, there⟩ := isDirectory_iff.mp there
    rw [← resolve_eq_ok resolved]
    rcases resolve_cases resolved with ⟨none, rfl⟩ | ⟨front, last, above, names, entered, followed⟩
    · rw [none]
      rfl
    · rw [names]
      exact enter_concat entered followed there

/-- In a directory that is there, where a name leads does not depend on anything else. -/
theorem Made.resolve_join {t u : Tree} {directory name : String} (before : t.Made directory)
    (after : u.Made directory) (home : u.home = t.home) (plain : IsName name) :
    u.resolve (join directory name) = t.resolve (join directory name) := by
  obtain ⟨names, absolute⟩ := components_join directory plain
  have first := before.enter
  have second := after.enter
  rw [origin] at first second
  rw [home] at second
  unfold resolve
  simp only [names, absolute, home, List.getLast?_concat, List.dropLast_concat, first, second]

/-- The second tree has everything that the first has, and directories besides. -/
structure Grows (t u : Tree) : Prop where
  home : u.home = t.home
  kept : ∀ l e, t.find? l = some e → u.find? l = some e
  files : ∀ l bytes, u.find? l = some (.file bytes) → t.find? l = some (.file bytes)

theorem Grows.refl (t : Tree) : Grows t t := ⟨rfl, fun _ _ h => h, fun _ _ h => h⟩

theorem Grows.trans {v : Tree} (first : Grows t u) (second : Grows u v) : Grows t v :=
  ⟨second.home.trans first.home, fun l e h => second.kept l e (first.kept l e h),
    fun l bytes h => first.files l bytes (second.files l bytes h)⟩

theorem Grows.keeps (grows : Grows t u) : Keeps t u :=
  ⟨grows.home, fun l h => grows.kept l .directory h⟩

theorem makeDirectory_grows (made : t.makeDirectory path = .ok u) : Grows t u := by
  obtain ⟨l, proper, _, free, rfl⟩ := makeDirectory_eq_place made
  have named : l ≠ [] := by
    rintro rfl
    cases free
  constructor
  · rfl
  · intro other e there
    have apart : other ≠ l := by
      rintro rfl
      rw [free] at there
      cases there
    rw [find?_place t named, if_neg apart]
    exact there
  · intro other bytes there
    rw [find?_place t named] at there
    split at there
    · cases there
    · exact there

theorem makeChain_grows (paths : List String) (t : Tree) : Grows t (makeChain paths t).2 := by
  induction paths generalizing t with
  | nil => exact Grows.refl t
  | cons path ancestors ih =>
    have above := ih t
    rw [makeChain]
    split
    · exact Grows.refl t
    · split
      · rename_i made
        exact makeDirectory_grows made
      · split
        · rename_i failed
          rwa [failed] at above
        · rename_i done
          rw [done] at above
          split
          · rename_i made
            exact above.trans (makeDirectory_grows made)
          · split <;> exact above
      · split <;> exact Grows.refl t

theorem makeDirectories_grows (t : Tree) (path : String) : Grows t (t.makeDirectories path).2 :=
  makeChain_grows _ t

theorem find?_erase (t : Tree) {l : Location} (named : l ≠ []) (other : Location) :
    (t.erase l).find? other = if other = l then none else t.find? other := by
  cases other with
  | nil => rw [if_neg fun same => named same.symm]; rfl
  | cons name rest =>
    simp only [find?, erase, List.isEmpty_cons, Bool.false_eq_true, if_false, List.find?_filter]
    by_cases same : name :: rest = l
    · rw [if_pos same, Option.map_eq_none_iff, List.find?_eq_none]
      intro entry _
      simp [same]
    · rw [if_neg same]
      congr 2
      funext entry
      by_cases here : entry.1 = name :: rest
      · simp [here, same]
      · simp [here]

theorem FileAt.named (place : t.FileAt path l) : l ≠ [] := by
  rintro rfl
  exact place.vacant rfl

theorem named_of_file {bytes : ByteArray} (there : t.find? l = some (.file bytes)) : l ≠ [] := by
  rintro rfl
  cases there

theorem keeps_erase_file {bytes : ByteArray} (there : t.find? l = some (.file bytes)) :
    Keeps t (t.erase l) := by
  have named := named_of_file there
  refine ⟨rfl, ?_⟩
  intro other directory
  rw [find?_erase t named, if_neg]
  · exact directory
  · rintro rfl
    rw [directory] at there
    cases there

theorem read_eq_ok_iff (plain : wantsDirectory path = false) {bytes : ByteArray} :
    t.read path = .ok bytes ↔
      ∃ l proper, t.resolve path = .ok (l, proper) ∧ t.find? l = some (.file bytes) := by
  unfold read entry
  cases resolved : t.resolve path with
  | error e => simp [bind, Except.bind]
  | ok r =>
    obtain ⟨l, proper⟩ := r
    cases there : t.find? l with
    | none => simp [bind, Except.bind, there]
    | some e => cases e <;> simp [bind, Except.bind, pure, Except.pure, there, plain]

theorem read_congr (resolved : u.resolve path = t.resolve path)
    (there : ∀ l proper, t.resolve path = .ok (l, proper) → u.find? l = t.find? l) :
    u.read path = t.read path := by
  unfold read entry
  rw [resolved]
  cases known : t.resolve path with
  | error e => rfl
  | ok r =>
    obtain ⟨l, proper⟩ := r
    simp only [bind, Except.bind, there l proper known]

theorem remove_eq_ok (removed : t.remove path = .ok u) :
    ∃ l proper bytes, t.resolve path = .ok (l, proper) ∧ t.find? l = some (.file bytes) ∧
      u = t.erase l := by
  unfold remove entry at removed
  cases resolved : t.resolve path with
  | error e =>
    rw [resolved] at removed
    cases removed
  | ok r =>
    obtain ⟨l, proper⟩ := r
    rw [resolved] at removed
    simp only [bind, Except.bind] at removed
    cases there : t.find? l with
    | none =>
      rw [there] at removed
      cases removed
    | some e =>
      rw [there] at removed
      cases e with
      | directory => cases removed
      | file bytes =>
        refine ⟨l, proper, bytes, rfl, there, ?_⟩
        by_cases wants : wantsDirectory path = true
        · simp [wants] at removed
        · simp only [wants, pure, Except.pure] at removed
          exact (Except.ok.inj removed).symm

theorem remove_of_resolve {proper : Bool} (resolved : t.resolve path = .ok (l, proper))
    (free : t.find? l = none) : t.remove path = .error .notFound := by
  simp [remove, entry, resolved, free, bind, Except.bind]

end Files.Tree

end GridSweep
