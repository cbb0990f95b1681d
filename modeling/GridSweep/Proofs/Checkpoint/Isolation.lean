import GridSweep.Proofs.Checkpoint.History

/-!
The store as a table. After any history a load answers by the last save at its path that succeeded
and was not discarded since; operations at other paths and operations that fail have no part in it
(`isolation`).
-/
namespace GridSweep.Store

open Checkpoint
open Files (Tree)

def answer (s : Store) (c : Config) : Option (Config × ResultSet) → Except Fault State
  | none => .ok .noCheckpoint
  | some (saver, results) =>
    if saver.fingerprint = c.fingerprint then .ok (.restored results.sorted)
    else .error (.foreign (s.path c) saver.fingerprint c.fingerprint)

def IoFailed {α : Type} (reply : Except Fault α) : Prop :=
  ∃ e, reply = .error e ∧ e.report.kind = .ioFailure

variable {s : Store} {t u : Tree} {c : Config} {entry : Option (Config × ResultSet)}

/-- A load answers by what the place shows, or there is nothing and the system does not let it look. -/
theorem Shows.load (shows : s.Shows t c entry) :
    s.load c t = s.answer c entry ∨ entry = none ∧ IoFailed (s.load c t) := by
  cases shows with
  | nothing bare =>
    unfold Store.load
    cases read : t.read (s.path c) with
    | ok bytes =>
      obtain ⟨l, proper, resolved, there⟩ := (Tree.read_eq_ok_iff (plain_path s c)).mp read
      rw [Tree.resolve_eq_ok resolved] at there
      exact absurd there (bare bytes)
    | error cause =>
      cases cause with
      | notFound => exact .inl rfl
      | _ => exact .inr ⟨rfl, _, rfl, rfl⟩
  | content resolved there kept =>
    rename_i saver results proper time
    have read := (Tree.read_eq_ok_iff (plain_path s c)).mpr ⟨_, proper, resolved, there⟩
    have accepted : accept (s.path c) c.fingerprint (render saver time results).toUTF8 =
        if saver.fingerprint = c.fingerprint then .ok results.sorted
        else .error (.foreign (s.path c) saver.fingerprint c.fingerprint) :=
      accept_render_of (fun r hr => (kept r hr).1) fun r hr => (kept r hr).2
    left
    rw [load_of_read read, accepted, answer]
    by_cases same : saver.fingerprint = c.fingerprint
    · rw [if_pos same, if_pos same]
      rfl
    · rw [if_neg same, if_neg same]
      rfl

theorem Shows.read_iff (shows : s.Shows t c entry) {bytes : ByteArray} :
    t.read (s.path c) = .ok bytes ↔ t.find? (s.place t.home c) = some (.file bytes) := by
  rw [Tree.read_eq_ok_iff (plain_path s c)]
  constructor
  · rintro ⟨l, proper, resolved, there⟩
    rwa [Tree.resolve_eq_ok resolved] at there
  · intro there
    cases shows with
    | nothing bare => exact absurd there (bare bytes)
    | content resolved _ _ => exact ⟨_, _, resolved, there⟩

/-- What the answer to a load has to be, by what was saved last at its path: nothing is there, or the
results are restored, or they are those of another fingerprint. -/
def Answers (c : Config) (last : Option (Config × ResultSet)) (reply : Except Fault State) : Prop :=
  match last with
  | none => reply = .ok .noCheckpoint
  | some (saver, results) =>
    (saver.fingerprint = c.fingerprint →
      ∃ restored, reply = .ok (.restored restored) ∧ restored.same results = true) ∧
    (saver.fingerprint ≠ c.fingerprint →
      ∃ e, reply = .error e ∧ e.report.kind = .configMismatch)

theorem Shows.answers (shows : s.Shows t c entry) :
    Answers c entry (s.load c t) ∨ entry = none ∧ IoFailed (s.load c t) := by
  refine shows.load.imp_left fun told => ?_
  rw [told]
  cases shows with
  | nothing bare => rfl
  | content _ _ kept =>
    constructor
    · intro same
      exact ⟨_, if_pos same, ResultSet.sorted_same fun r hr => (kept r hr).1⟩
    · intro other
      exact ⟨_, if_neg other, rfl⟩

theorem keep_elsewhere {event : Event} {p : String} {known : Option (Config × ResultSet)}
    (other : s.path event.config ≠ p) : s.keep p known event = known := by
  cases event with
  | saved c time results reply =>
    cases reply with
    | ok path => exact keep_saved_other other
    | error e => rfl
  | loaded c reply => rfl
  | discarded c reply =>
    cases reply with
    | ok b => exact keep_discarded_other other
    | error e => rfl

theorem Interrupted.eq_of_made (far : Interrupted (Path.ancestors s.directory) t u)
    (made : t.Made s.directory) : u = t := by
  have present (named : s.directory.isEmpty = false)
      (missing : t.makeDirectory s.directory = .error .notFound) : False := by
    rcases made with empty | there
    · rw [named] at empty
      cases empty
    · rw [Tree.makeDirectory_of_isDirectory there] at missing
      cases missing
  have chain : Path.ancestors s.directory =
      s.directory :: (Path.ancestors s.directory).tail := by
    rfl
  rw [chain] at far
  cases far with
  | first => rfl
  | above named missing rest => exact (present named missing).elim
  | last named missing made => exact (present named missing).elim

/-- What an operation leaves alone where the directory is there: the directory, and what is in the
places of the checkpoints at other paths. -/
theorem Happens.elsewhere {event : Event} (happens : s.Happens t event u)
    (made : t.Made s.directory) (other : s.path event.config ≠ s.path c) :
    Tree.Keeps t u ∧ u.find? (s.place t.home c) = t.find? (s.place t.home c) := by
  have whole := Tree.makeDirectories_of_made made
  have apart {l : Files.Location} {proper : Bool}
      (resolved : t.resolve (s.path event.config) = .ok (l, proper)) : s.place t.home c ≠ l := by
    rw [Tree.resolve_eq_ok resolved]
    exact fun same => other ((s.place_inj t.home c event.config).mp same).symm
  have untouched : Tree.Keeps t t ∧ t.find? (s.place t.home c) = t.find? (s.place t.home c) :=
    ⟨Tree.Keeps.refl t, rfl⟩
  cases happens with
  | save e time results =>
    unfold Store.save
    simp only [whole]
    cases written : t.write (s.path e) (render e time results).toUTF8 with
    | error cause => exact untouched
    | ok v =>
      obtain ⟨l, place, rfl⟩ := Tree.write_eq_ok written
      obtain ⟨proper, resolved⟩ := place.resolved
      refine ⟨Tree.keeps_place_file place.vacant _, ?_⟩
      rw [Tree.find?_place t place.named, if_neg (apart resolved)]
  | load e => exact untouched
  | discard e =>
    rcases discard_cases s e t with ⟨l, proper, bytes, resolved, there, done⟩ | ⟨_, done⟩ | ⟨_, done⟩
    · rw [done]
      refine ⟨Tree.keeps_erase_file there, ?_⟩
      rw [Tree.find?_erase t (Tree.named_of_file there), if_neg (apart resolved)]
    · rw [done]
      exact untouched
    · rw [done]
      exact untouched
  | refusedDirectory e time results fault far =>
    rw [far.eq_of_made made]
    exact untouched
  | refusedFile e time results fault done left =>
    rw [whole] at done
    obtain rfl := (Prod.mk.inj done).2
    exact ⟨left.elsewhere.1, left.elsewhere.2 c⟩
  | refusedLoad e cause => exact untouched
  | refusedDiscard e fault => exact untouched

theorem Happens.load_elsewhere {event : Event} (happens : s.Happens t event u)
    (made : t.Made s.directory) (other : s.path event.config ≠ s.path c) :
    s.load c u = s.load c t := by
  obtain ⟨keeps, there⟩ := happens.elsewhere made other
  have resolved : u.resolve (s.path c) = t.resolve (s.path c) :=
    made.resolve_join (made.of_keeps keeps) keeps.home c.isName_fileName
  have read : u.read (s.path c) = t.read (s.path c) := by
    refine Tree.read_congr resolved ?_
    intro l proper leads
    rw [Tree.resolve_eq_ok leads]
    exact there
  unfold Store.load
  rw [read]

/-- A save or discard that fails takes no file away from a checkpoint's place and puts none there. -/
theorem Happens.files_of_failed {event : Event} (happens : s.Happens t event u)
    (failed : event.Failed) {bytes : ByteArray} : u.home = t.home ∧
      (u.find? (s.place t.home c) = some (.file bytes) ↔
        t.find? (s.place t.home c) = some (.file bytes)) := by
  have grown {v : Tree} (grows : Tree.Grows t v) : v.home = t.home ∧
      (v.find? (s.place t.home c) = some (.file bytes) ↔
        t.find? (s.place t.home c) = some (.file bytes)) :=
    ⟨grows.home, grows.files _ _, grows.kept _ _⟩
  cases happens with
  | save e time results =>
    obtain ⟨cause, failed⟩ := failed
    exact grown (grows_of_save (Prod.ext failed rfl))
  | load e => exact failed.elim
  | discard e =>
    obtain ⟨cause, failed⟩ := failed
    rcases discard_cases s e t with ⟨_, _, _, _, _, done⟩ | ⟨_, done⟩ | ⟨_, done⟩
    · rw [done] at failed
      cases failed
    · rw [done] at failed
      cases failed
    · rw [done]
      exact ⟨rfl, Iff.rfl⟩
  | refusedDirectory e time results fault far => exact grown far.grows
  | refusedFile e time results fault done left =>
    have grows := Tree.makeDirectories_grows t s.directory
    rw [done] at grows
    obtain ⟨keeps, same⟩ := left.elsewhere
    have there := same c
    rw [grows.home] at there
    refine ⟨keeps.home.trans grows.home, ?_⟩
    rw [there]
    exact (grown grows).2
  | refusedLoad e cause => exact failed.elim
  | refusedDiscard e fault => exact ⟨rfl, Iff.rfl⟩

theorem Happens.discarded {reply : Except Fault Bool}
    (happens : s.Happens t (.discarded c reply) u) :
    s.discard c t = (reply, u) ∨ ∃ e, reply = .error e ∧ u = t := by
  cases happens with
  | discard c => exact .inl (Prod.eta _).symm
  | refusedDiscard c e => exact .inr ⟨e, rfl, rfl⟩

theorem discard_again {b : Bool} (discarded : s.discard c t = (.ok b, u)) {e : Config}
    (same : s.path e = s.path c) : s.discard e u = (.ok false, u) := by
  have missing : u.remove (s.path e) = .error .notFound := by
    rw [same]
    rcases discard_cases s c t with ⟨l, proper, bytes, resolved, there, done⟩ | ⟨gone, done⟩ |
      ⟨fault, done⟩
    · rw [done] at discarded
      obtain rfl := (Prod.mk.inj discarded).2
      refine Tree.remove_of_resolve (Tree.resolve_of_keeps (Tree.keeps_erase_file there) resolved) ?_
      rw [Tree.find?_erase t (Tree.named_of_file there), if_pos rfl]
    · rw [done] at discarded
      obtain rfl := (Prod.mk.inj discarded).2
      exact gone
    · rw [done] at discarded
      cases (Prod.mk.inj discarded).1
  unfold discard
  rw [missing]

/-- What a load answers depends on the successful saves and discards at its path alone. In a directory
without checkpoints, after any history of configurations that save, load and discard there, each
operation succeeding or failing at any stage:

* a load says what was saved last at its path and not discarded since, if the system did not refuse it;
* where something is saved a load finds it, and only where nothing is may it fail on the files;
* an event at another path does not change what a load says, except that, where the directory was not
  there before and nothing is saved at the path, the system may come to refuse a load or cease to;
* a save or discard that fails leaves every checkpoint as it was, and a load, which only reads, leaves
  all files;
* a discard right after a successful one at the same path finds nothing. -/
theorem isolation (s : Store) (start : Tree)
    (bare : ∀ c bytes, start.find? (s.place start.home c) ≠ some (.file bytes))
    (events : List Event) (t : Tree) (history : s.History start events t)
    (kept : ∀ event ∈ events, event.Kept) :
    (∀ earlier c reply later, events = earlier ++ .loaded c reply :: later →
      IoFailed reply ∨ Answers c (s.lastSaved earlier (s.path c)) reply) ∧
    (∀ c, Answers c (s.lastSaved events (s.path c)) (s.load c t) ∨
      s.lastSaved events (s.path c) = none ∧ IoFailed (s.load c t)) ∧
    ∀ event u, s.Happens t event u → event.Kept →
      (∀ c, s.path event.config ≠ s.path c → s.load c u = s.load c t ∨
        ¬ t.Made s.directory ∧ s.lastSaved events (s.path c) = none ∧
          (IoFailed (s.load c t) ∨ IoFailed (s.load c u))) ∧
      (event.Failed → ∀ c bytes,
        u.read (s.path c) = .ok bytes ↔ t.read (s.path c) = .ok bytes) ∧
      (∀ c reply, event = .loaded c reply → u = t) ∧
      ∀ c b, event = .discarded c (.ok b) → ∀ e, s.path e = s.path c →
        s.discard e u = (.ok false, u) := by
  refine ⟨?_, fun c => (history.mirrors bare kept c).answers, ?_⟩
  · rintro earlier c reply later rfl
    obtain ⟨t', v, before, happens⟩ := history.before rfl
    have mirrors := before.mirrors bare fun event he => kept event (List.mem_append_left _ he)
    cases happens with
    | load c => exact (mirrors c).answers.symm.imp_left And.right
    | refusedLoad c cause => exact .inl ⟨_, rfl, rfl⟩
  · intro event u happens kept'
    have mirrors := history.mirrors bare kept
    have mirrors' := mirrors.step kept' happens
    refine ⟨?_, ?_, ?_, ?_⟩
    · intro c other
      by_cases made : t.Made s.directory
      · exact .inl (happens.load_elsewhere made other)
      · -- The event may make directories. The table has the same at the path before and after.
        have told := (mirrors' c).load
        simp only [keep_elsewhere other] at told
        rcases (mirrors c).load with before | ⟨absent, failed⟩
        · rcases told with after | ⟨absent, failed⟩
          · exact .inl (after.trans before.symm)
          · exact .inr ⟨made, absent, .inr failed⟩
        · exact .inr ⟨made, absent, .inl failed⟩
    · intro failed c bytes
      obtain ⟨home, same⟩ := happens.files_of_failed failed
      rw [(mirrors' c).read_iff, (mirrors c).read_iff, home]
      exact same
    · rintro c reply rfl
      cases happens <;> rfl
    · rintro c b rfl e same
      rcases happens.discarded with done | ⟨fault, refused, _⟩
      · exact discard_again done same
      · cases refused

theorem bare_initial (c : Config) (bytes : ByteArray) :
    Tree.initial.find? (place ⟨"checkpoints"⟩ Tree.initial.home c) ≠ some (.file bytes) := by
  have directory : Path.locate ["home"] "checkpoints" = ["home", "checkpoints"] := by decide
  rw [place_eq]
  show Tree.initial.find? (Path.locate ["home"] "checkpoints" ++ [c.fileName]) ≠ _
  rw [directory]
  simp [Tree.initial, Tree.find?]

/-- A checkpoint that was saved is restored after a save that was refused. -/
theorem isolation_mixedResults : ∃ restored files,
    History ⟨"checkpoints"⟩ .initial
      [.saved namedConfig "now" mixedResults (.ok "checkpoints/demo.checkpoint.json"),
        .saved namedConfig "later" .empty (.error (.files .makeDirectory "checkpoints" .denied)),
        .loaded namedConfig (.ok (.restored restored))] files ∧
    restored.same mixedResults = true := by
  have saved : ((⟨"checkpoints"⟩ : Store).save namedConfig "now" mixedResults .initial).1 =
    .ok "checkpoints/demo.checkpoint.json" := rfl
  have happens := Happens.save (s := ⟨"checkpoints"⟩) (t := .initial) namedConfig "now" mixedResults
  rw [saved] at happens
  have first := History.start.step happens
  have second := first.step (.refusedDirectory namedConfig "later" .empty
    (.files .makeDirectory "checkpoints" .denied) (.first _ _))
  have told := (isolation ⟨"checkpoints"⟩ .initial bare_initial _ _ second ?_).2.1 namedConfig
  · simp only [lastSaved, List.nil_append, List.cons_append, List.foldl_cons, List.foldl_nil, keep,
      if_true, reduceCtorEq, false_and, or_false] at told
    obtain ⟨restored, loaded, same⟩ := told.1 rfl
    have third := second.step (.load namedConfig)
    rw [loaded] at third
    exact ⟨restored, _, third, same⟩
  · intro event he
    simp at he
    rcases he with rfl | rfl
    · exact fun r hr => ⟨storable_mixedResults r hr, readsBack_mixedResults r hr⟩
    · intro r hr
      cases hr

end GridSweep.Store
