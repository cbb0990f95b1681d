import GridSweep.Proofs.Checkpoint.Place
import GridSweep.Proofs.Checkpoint.RoundTrip

/-!
Histories of a store. Many configurations save, load and discard in one directory, two of them at one
path if their names agree, and any operation may be refused by the system at any of its stages. Through
all of it the files mirror a table from paths to what was saved there last (`History.mirrors`).
-/
namespace GridSweep.Store

open Checkpoint
open Files (Tree)

inductive Event where
  | saved (c : Config) (time : String) (results : ResultSet) (reply : Except Fault String)
  | loaded (c : Config) (reply : Except Fault State)
  | discarded (c : Config) (reply : Except Fault Bool)

namespace Event

def config : Event → Config
  | saved c _ _ _ | loaded c _ | discarded c _ => c

def Failed : Event → Prop
  | saved _ _ _ reply => ∃ e, reply = .error e
  | loaded _ _ => False
  | discarded _ reply => ∃ e, reply = .error e

def Kept : Event → Prop
  | saved _ _ results _ => ∀ r ∈ results.records, r.Storable ∧ r.ReadsBack
  | loaded _ _ | discarded _ _ => True

end Event

/-- How far the making of directories can get when the system refuses one of its calls. -/
inductive Interrupted : List String → Tree → Tree → Prop where
  | first (paths : List String) (t : Tree) : Interrupted paths t t
  | above {path : String} {ancestors : List String} {t u : Tree} (named : path.isEmpty = false)
      (missing : t.makeDirectory path = .error .notFound) (rest : Interrupted ancestors t u) :
      Interrupted (path :: ancestors) t u
  | last {path : String} {ancestors : List String} {t u : Tree} (named : path.isEmpty = false)
      (missing : t.makeDirectory path = .error .notFound)
      (made : Tree.makeChain ancestors t = (.ok (), u)) : Interrupted (path :: ancestors) t u

/-- What a save that could not replace the checkpoint leaves of its temporary file: nothing, or a file
that is named like no checkpoint. -/
inductive Leftover (s : Store) (t : Tree) : Tree → Prop where
  | nothing : Leftover s t t
  | temporary {name : String} {bytes : ByteArray} {u : Tree} (plain : Path.IsName name)
      (strange : ∀ e : Config, e.fileName ≠ name)
      (written : t.write (Path.join s.directory name) bytes = .ok u) : Leftover s t u

/-- The events that can happen to the files of a store: those of its operations as they are, and those
in which the system refuses a call that would have succeeded. -/
inductive Happens (s : Store) (t : Tree) : Event → Tree → Prop where
  | save (c : Config) (time : String) (results : ResultSet) :
      Happens s t (.saved c time results (s.save c time results t).1) (s.save c time results t).2
  | load (c : Config) : Happens s t (.loaded c (s.load c t)) t
  | discard (c : Config) : Happens s t (.discarded c (s.discard c t).1) (s.discard c t).2
  | refusedDirectory (c : Config) (time : String) (results : ResultSet) (e : Fault) {u : Tree}
      (far : Interrupted (Path.ancestors s.directory) t u) :
      Happens s t (.saved c time results (.error e)) u
  | refusedFile (c : Config) (time : String) (results : ResultSet) (e : Fault) {u v : Tree}
      (made : t.makeDirectories s.directory = (.ok (), u)) (left : Leftover s u v) :
      Happens s t (.saved c time results (.error e)) v
  | refusedLoad (c : Config) (cause : Files.Fault) :
      Happens s t (.loaded c (.error (.files .read (s.path c) cause))) t
  | refusedDiscard (c : Config) (e : Fault) : Happens s t (.discarded c (.error e)) t

inductive History (s : Store) (start : Tree) : List Event → Tree → Prop where
  | start : History s start [] start
  | step {events : List Event} {event : Event} {t u : Tree} (before : History s start events t)
      (happens : s.Happens t event u) : History s start (events ++ [event]) u

def keep (s : Store) (path : String) (known : Option (Config × ResultSet)) :
    Event → Option (Config × ResultSet)
  | .saved c _ results (.ok _) => if s.path c = path then some (c, results) else known
  | .discarded c (.ok _) => if s.path c = path then none else known
  | _ => known

/-- What the last successful save at a path has saved, unless it was discarded since. -/
def lastSaved (s : Store) (events : List Event) (path : String) : Option (Config × ResultSet) :=
  events.foldl (s.keep path) none

/-- What is in the place of a checkpoint, by what was saved there last: no file, or a file with that
content, which can be reached. -/
inductive Shows (s : Store) (t : Tree) (c : Config) : Option (Config × ResultSet) → Prop where
  | nothing (bare : ∀ bytes, t.find? (s.place t.home c) ≠ some (.file bytes)) : Shows s t c none
  | content {saver : Config} {results : ResultSet} {proper : Bool} {time : String}
      (resolved : t.resolve (s.path c) = .ok (s.place t.home c, proper))
      (there : t.find? (s.place t.home c) = some (.file (render saver time results).toUTF8))
      (kept : ∀ r ∈ results.records, r.Storable ∧ r.ReadsBack) : Shows s t c (some (saver, results))

def Mirrors (s : Store) (t : Tree) (table : String → Option (Config × ResultSet)) : Prop :=
  ∀ c, s.Shows t c (table (s.path c))

variable {s : Store} {t u : Tree} {c : Config} {entry : Option (Config × ResultSet)}
  {table : String → Option (Config × ResultSet)}

/-- What a place shows stays while directories are kept and nothing is done to the place itself. -/
theorem Shows.keeps (shows : s.Shows t c entry) (keeps : Tree.Keeps t u)
    (same : u.find? (s.place t.home c) = t.find? (s.place t.home c)) : s.Shows u c entry := by
  rw [← keeps.home] at same
  cases shows with
  | nothing bare =>
    rw [← keeps.home] at bare
    refine .nothing ?_
    intro bytes
    rw [same]
    exact bare bytes
  | content resolved there kept =>
    rw [← keeps.home] at resolved there
    exact .content (Tree.resolve_of_keeps keeps resolved) (same.trans there) kept

theorem Shows.grows (shows : s.Shows t c entry) (grows : Tree.Grows t u) : s.Shows u c entry := by
  cases shows with
  | nothing bare =>
    rw [← grows.home] at bare
    exact .nothing fun bytes there => bare bytes (grows.files _ _ there)
  | content resolved there kept =>
    rw [← grows.home] at resolved there
    exact .content (Tree.resolve_of_keeps grows.keeps resolved) (grows.kept _ _ there) kept

theorem Mirrors.grows (mirrors : s.Mirrors t table) (grows : Tree.Grows t u) :
    s.Mirrors u table :=
  fun c => (mirrors c).grows grows

section Keep

variable {p path time : String} {results : ResultSet} {known : Option (Config × ResultSet)} {b : Bool}

theorem keep_saved_same (same : s.path c = p) :
    s.keep p known (.saved c time results (.ok path)) = some (c, results) := by
  simp only [keep, if_pos same]

theorem keep_saved_other (other : s.path c ≠ p) :
    s.keep p known (.saved c time results (.ok path)) = known := by
  simp only [keep, if_neg other]

theorem keep_discarded_same (same : s.path c = p) :
    s.keep p known (.discarded c (.ok b)) = none := by
  simp only [keep, if_pos same]

theorem keep_discarded_other (other : s.path c ≠ p) :
    s.keep p known (.discarded c (.ok b)) = known := by
  simp only [keep, if_neg other]

end Keep

theorem Mirrors.save (mirrors : s.Mirrors t table) {l : Files.Location} {time path : String}
    {results : ResultSet} (kept : ∀ r ∈ results.records, r.Storable ∧ r.ReadsBack)
    (place : t.FileAt (s.path c) l) :
    s.Mirrors (t.place l (.file (render c time results).toUTF8))
      (fun p => s.keep p (table p) (.saved c time results (.ok path))) := by
  have keeps := Tree.keeps_place_file place.vacant (render c time results).toUTF8
  have named := place.named
  obtain ⟨proper, resolved⟩ := place.resolved
  have here : l = s.place t.home c := Tree.resolve_eq_ok resolved
  intro e
  beta_reduce
  by_cases same : s.path c = s.path e
  · rw [keep_saved_same same]
    have own : l = s.place t.home e := here.trans ((place_inj s t.home c e).mpr same)
    have put : (t.place l (.file (render c time results).toUTF8)).find? (s.place t.home e) =
        some (.file (render c time results).toUTF8) := by
      rw [← own, Tree.find?_place t named, if_pos rfl]
    rw [own, same] at resolved
    exact .content (Tree.resolve_of_keeps keeps resolved) put kept
  · rw [keep_saved_other same]
    have other : s.place t.home e ≠ l := by
      rw [here]
      exact fun shared => same ((place_inj s t.home c e).mp shared.symm)
    exact (mirrors e).keeps keeps ((Tree.find?_place t named _ _).trans (if_neg other))

theorem Mirrors.discard (mirrors : s.Mirrors t table) {l : Files.Location} {proper b : Bool}
    {bytes : ByteArray} (resolved : t.resolve (s.path c) = .ok (l, proper))
    (there : t.find? l = some (.file bytes)) :
    s.Mirrors (t.erase l) (fun p => s.keep p (table p) (.discarded c (.ok b))) := by
  have keeps := Tree.keeps_erase_file there
  have named := Tree.named_of_file there
  have here : l = s.place t.home c := Tree.resolve_eq_ok resolved
  intro e
  beta_reduce
  by_cases same : s.path c = s.path e
  · rw [keep_discarded_same same]
    have own : l = s.place t.home e := here.trans ((place_inj s t.home c e).mpr same)
    refine .nothing ?_
    intro bytes'
    rw [keeps.home, ← own, Tree.find?_erase t named, if_pos rfl]
    simp
  · rw [keep_discarded_other same]
    have other : s.place t.home e ≠ l := by
      rw [here]
      exact fun shared => same ((place_inj s t.home c e).mp shared.symm)
    exact (mirrors e).keeps keeps ((Tree.find?_erase t named _).trans (if_neg other))

theorem Leftover.elsewhere (left : s.Leftover t u) :
    Tree.Keeps t u ∧ ∀ c, u.find? (s.place t.home c) = t.find? (s.place t.home c) := by
  cases left with
  | nothing => exact ⟨Tree.Keeps.refl t, fun _ => rfl⟩
  | temporary plain strange written =>
    obtain ⟨l, place, rfl⟩ := Tree.write_eq_ok written
    refine ⟨Tree.keeps_place_file place.vacant _, ?_⟩
    obtain ⟨proper, resolved⟩ := place.resolved
    intro c
    rw [Tree.find?_place t place.named, if_neg]
    rw [Tree.resolve_eq_ok resolved, Store.place, path,
      Path.locate_join_inj c.isName_fileName plain]
    exact strange c

theorem Interrupted.grows {paths : List String} (far : Interrupted paths t u) :
    Tree.Grows t u := by
  induction far with
  | first paths t => exact Tree.Grows.refl t
  | above named missing rest ih => exact ih
  | last named missing made =>
    rename_i path ancestors t u
    have grows := Tree.makeChain_grows ancestors t
    rwa [made] at grows

theorem grows_of_save {time : String} {results : ResultSet} {e : Fault}
    (failed : s.save c time results t = (.error e, u)) : Tree.Grows t u := by
  have grows := Tree.makeDirectories_grows t s.directory
  unfold save at failed
  split at failed
  · rename_i made
    rw [made] at grows
    obtain rfl := (Prod.mk.inj failed).2
    exact grows
  · rename_i made
    rw [made] at grows
    split at failed
    · cases (Prod.mk.inj failed).1
    · obtain rfl := (Prod.mk.inj failed).2
      exact grows

theorem discard_cases (s : Store) (c : Config) (t : Tree) :
    (∃ l proper bytes, t.resolve (s.path c) = .ok (l, proper) ∧ t.find? l = some (.file bytes) ∧
      s.discard c t = (.ok true, t.erase l)) ∨
    (t.remove (s.path c) = .error .notFound ∧ s.discard c t = (.ok false, t)) ∨
    ∃ e, s.discard c t = (.error e, t) := by
  unfold Store.discard
  cases removed : t.remove (s.path c) with
  | ok u =>
    obtain ⟨l, proper, bytes, resolved, there, rfl⟩ := Tree.remove_eq_ok removed
    exact .inl ⟨l, proper, bytes, resolved, there, rfl⟩
  | error cause =>
    cases cause with
    | notFound => exact .inr (.inl ⟨rfl, rfl⟩)
    | _ => exact .inr (.inr ⟨_, rfl⟩)

theorem plain_path (s : Store) (c : Config) : Path.wantsDirectory (s.path c) = false :=
  Path.wantsDirectory_join c.isName_fileName

theorem Shows.eq_none_of_missing (shows : s.Shows t c entry)
    (missing : t.remove (s.path c) = .error .notFound) : entry = none := by
  cases shows with
  | nothing bare => rfl
  | content resolved there kept =>
    simp [Tree.remove, Tree.entry, resolved, there, plain_path, bind, Except.bind, pure,
      Except.pure] at missing

theorem Mirrors.step (mirrors : s.Mirrors t table) {event : Event} (kept : event.Kept)
    (happens : s.Happens t event u) : s.Mirrors u (fun p => s.keep p (table p) event) := by
  cases happens with
  | save c time results =>
    cases saved : s.save c time results t with
    | mk reply v =>
      cases reply with
      | ok path =>
        obtain ⟨made, l, directories, place, rfl⟩ := s.save_eq_ok c saved
        have grows := Tree.makeDirectories_grows t s.directory
        rw [directories] at grows
        exact (mirrors.grows grows).save kept place
      | error e => exact mirrors.grows (grows_of_save saved)
  | load c => exact mirrors
  | discard c =>
    rcases discard_cases s c t with ⟨l, proper, bytes, resolved, there, done⟩ | ⟨missing, done⟩ |
      ⟨e, done⟩
    · rw [done]
      exact mirrors.discard resolved there
    · -- Nothing was there to remove, so the table has nothing at that path either.
      rw [done]
      have absent := (mirrors c).eq_none_of_missing missing
      have same : (fun p => s.keep p (table p) (.discarded c (.ok false))) = table := by
        funext p
        by_cases here : s.path c = p
        · rw [keep_discarded_same here, ← here, absent]
        · exact keep_discarded_other here
      rw [same]
      exact mirrors
    · rw [done]
      exact mirrors
  | refusedDirectory c time results e far => exact mirrors.grows far.grows
  | refusedFile c time results e made left =>
    have grows := Tree.makeDirectories_grows t s.directory
    rw [made] at grows
    obtain ⟨keeps, same⟩ := left.elsewhere
    exact fun e => (mirrors.grows grows e).keeps keeps (same e)
  | refusedLoad c cause => exact mirrors
  | refusedDiscard c e => exact mirrors

theorem History.mirrors {start : Tree} {events : List Event} (history : s.History start events t)
    (bare : ∀ c bytes, start.find? (s.place start.home c) ≠ some (.file bytes))
    (kept : ∀ event ∈ events, event.Kept) : s.Mirrors t (s.lastSaved events) := by
  induction history with
  | start => exact fun c => .nothing (bare c)
  | step before happens ih =>
    rename_i events event t u
    have earlier := ih fun e he => kept e (List.mem_append_left _ he)
    have further : s.lastSaved (events ++ [event]) =
        fun p => s.keep p (s.lastSaved events p) event := by
      funext p
      rw [lastSaved, List.foldl_append]
      rfl
    rw [further]
    exact earlier.step (kept event (by simp)) happens

theorem History.before {start : Tree} {events : List Event} (history : s.History start events u)
    {earlier later : List Event} {event : Event} (split : events = earlier ++ event :: later) :
    ∃ t v, s.History start earlier t ∧ s.Happens t event v := by
  induction history generalizing later with
  | start => simp at split
  | step before happens ih =>
    rename_i events happened _ _
    have upTo : earlier ++ [event] <+: events ++ [happened] := ⟨later, by simp [split]⟩
    rcases List.prefix_concat_iff.mp upTo with whole | ⟨between, earlier_⟩
    · obtain ⟨rfl, same⟩ := List.append_inj' whole rfl
      obtain rfl := List.singleton_inj.mp same
      exact ⟨_, _, before, happens⟩
    · have front : events = earlier ++ event :: between := by simp [← earlier_]
      exact ih front

end GridSweep.Store
