import GridSweep.Proofs.Checkpoint.RoundTrip
import GridSweep.Proofs.Sweep.Memory

/-!
The accounts of a sweep. Whatever the measurer does, a sweep that ends well has put every objective of
its configuration into one of four counts, and its results are the restored ones with the records of
the calls behind them (`run_accounts`). The calls are those that the measurer itself has logged; the
log changes nothing else (`run_logged`).
-/
namespace GridSweep

/-- Each entry of a list has the property, together with the entries before it. -/
def Throughout {α : Type} (P : List α → α → Prop) (l : List α) : Prop :=
  ∀ before a after, l = before ++ a :: after → P before a

theorem throughout_nil {α : Type} {P : List α → α → Prop} : Throughout P [] := by
  intro before a after split
  simp at split

theorem throughout_concat {α : Type} {P : List α → α → Prop} {l : List α} {a : α} :
    Throughout P (l ++ [a]) ↔ Throughout P l ∧ P l a := by
  constructor
  · intro each
    constructor
    · intro before b after split
      exact each before b (after ++ [a]) (by simp [split])
    · exact each l a [] rfl
  · rintro ⟨early, last⟩ before b after split
    have upTo : before ++ [b] <+: l ++ [a] := ⟨after, by simp [split]⟩
    rcases List.prefix_concat_iff.mp upTo with whole | ⟨later, earlier⟩
    · obtain ⟨rfl, same⟩ := List.append_inj' whole rfl
      obtain rfl := List.singleton_inj.mp same
      exact last
    · exact early before b later (by simp [← earlier])

namespace Sweep

variable {μ : Type}

structure Call where
  name : String
  objective : Objective
  answer : Except SweepError RunRecord

namespace Call

def item (c : Call) : String × Objective := (c.name, c.objective)

def verdict (c : Call) : Verdict := judge c.name c.objective c.answer

def record? (policy : FailurePolicy) (c : Call) : Option RunRecord :=
  c.verdict.record? policy c.name c.objective

end Call

/-- The measurer that also writes down its calls. -/
def Measurer.logged (m : Measurer μ) : Measurer (μ × List Call) := fun name o files (memory, calls) =>
  let (answer, memory) := m name o files memory
  (answer, memory, calls ++ [⟨name, o, answer⟩])

def Task.logged (t : Task μ) : Task (μ × List Call) :=
  ⟨t.config, t.store, t.options, t.time, Measurer.logged t.measurer⟩

theorem run_logged (t : Task μ) (files : Files.Tree) (memory : μ) :
    run t files memory =
      ⟨(run t.logged files (memory, [])).result, (run t.logged files (memory, [])).files,
        (run t.logged files (memory, [])).memory.1⟩ :=
  run_recalled (m := Measurer.logged t.measurer) (f := Prod.fst) (fun _ _ _ _ => rfl) files (memory, [])

theorem restore_logged (t : Task μ) (files : Files.Tree) : restore t.logged files = restore t files :=
  restore_measuredBy (Measurer.logged t.measurer) files

/-- The accounts of a sweep after some of its objectives, by the calls so far. -/
structure Accounts (options : Options) (restored : ResultSet) (items : List (String × Objective))
    (calls : List Call) (outcome : Outcome) : Prop where
  total : outcome.measured + outcome.skipped + outcome.failed + outcome.remaining = items.length
  attempts : outcome.measured + outcome.failed = calls.length
  measured : outcome.measured = calls.countP (·.verdict.isGood)
  failed : outcome.failed = calls.countP (·.verdict.isFailure)
  order : (calls.map Call.item).Sublist items
  /-- The results at a call are the restored ones with those of the calls before. -/
  unknown : ∀ before c after, calls = before ++ c :: after → ∃ s : ResultSet,
    s.records = restored.records ++ before.filterMap (Call.record? options.policy) ∧
      s.contains c.objective.model c.objective = false
  limited : ∀ limit, options.limit = some limit → outcome.measured + outcome.failed ≤ limit ∧
    (0 < outcome.remaining → outcome.measured + outcome.failed = limit)
  unlimited : options.limit = none → outcome.remaining = 0
  records : outcome.results.records =
    restored.records ++ calls.filterMap (Call.record? options.policy)

section Step

variable {options : Options} {restored : ResultSet} {items : List (String × Objective)}
  {item : String × Objective} {calls : List Call} {p q : Progress μ}

theorem accounts_start (options : Options) (restored : ResultSet) :
    Accounts options restored [] [] ⟨0, 0, 0, 0, restored⟩ where
  total := rfl
  attempts := rfl
  measured := rfl
  failed := rfl
  order := .slnil
  unknown before c after split := by simp at split
  limited limit bounded := by simp
  unlimited _ := rfl
  records := (List.append_nil _).symm

theorem Accounts.skip (accounts : Accounts options restored items calls p.outcome) :
    Accounts options restored (items ++ [item]) calls
      { p with skipped := p.skipped + 1 }.outcome where
  total := by
    have := accounts.total
    simp only [Progress.outcome, List.length_append, List.length_singleton] at this ⊢
    omega
  attempts := accounts.attempts
  measured := accounts.measured
  failed := accounts.failed
  order := accounts.order.trans (List.sublist_append_left _ _)
  unknown := accounts.unknown
  limited := accounts.limited
  unlimited := accounts.unlimited
  records := accounts.records

theorem Accounts.leave (accounts : Accounts options restored items calls p.outcome)
    (beyond : options.limit.any (· ≤ p.attempts) = true) :
    Accounts options restored (items ++ [item]) calls
      { p with remaining := p.remaining + 1 }.outcome where
  total := by
    have := accounts.total
    simp only [Progress.outcome, List.length_append, List.length_singleton] at this ⊢
    omega
  attempts := accounts.attempts
  measured := accounts.measured
  failed := accounts.failed
  order := accounts.order.trans (List.sublist_append_left _ _)
  unknown := accounts.unknown
  limited limit bounded := by
    have within := (accounts.limited limit bounded).1
    rw [bounded, Option.any_some, decide_eq_true_eq] at beyond
    exact ⟨within, fun _ => Nat.le_antisymm within beyond⟩
  unlimited free := by
    rw [free] at beyond
    cases beyond
  records := accounts.records

/-- A call of the measurer that does not end the sweep is one attempt more, of an objective that was
not on record. -/
theorem Accounts.call {c : Call}
    (accounts : Accounts options restored items calls p.outcome)
    (unknown : p.results.contains c.objective.model c.objective = false)
    (within : options.limit.any (· ≤ p.attempts) = false)
    (settled : Settled options.policy c.name c.objective c.verdict p q) :
    Accounts options restored (items ++ [c.item]) (calls ++ [c]) q.outcome where
  total := by
    have := accounts.total
    have := settled.attempt
    simp only [Progress.outcome, List.length_append, List.length_singleton, settled.measured,
      settled.failed, settled.skipped, settled.remaining] at *
    omega
  attempts := by
    have := accounts.attempts
    have := settled.attempt
    simp only [Progress.outcome, List.length_append, List.length_singleton, settled.measured,
      settled.failed] at *
    omega
  measured := by
    have := accounts.measured
    simp only [Progress.outcome, List.countP_append, List.countP_singleton, settled.measured] at *
    cases c.verdict.isGood <;> simp [this]
  failed := by
    have := accounts.failed
    simp only [Progress.outcome, List.countP_append, List.countP_singleton, settled.failed] at *
    cases c.verdict.isFailure <;> simp [this]
  order := by
    rw [List.map_append]
    exact accounts.order.append (List.Sublist.refl _)
  unknown := throughout_concat.mpr ⟨accounts.unknown, p.results, accounts.records, unknown⟩
  limited limit bounded := by
    have := settled.attempt
    rw [bounded, Option.any_some, decide_eq_false_iff_not, Progress.attempts] at within
    obtain ⟨_, reached⟩ := accounts.limited limit bounded
    simp only [Progress.outcome, settled.measured, settled.failed, settled.remaining] at *
    omega
  unlimited free := by
    have none := accounts.unlimited free
    rw [← none]
    exact settled.remaining
  records := by
    have before := accounts.records
    simp only [Progress.outcome] at before ⊢
    rw [settled.records, before, List.filterMap_append, List.append_assoc]
    rfl

theorem Accounts.visit {t : Task μ} {p q : Progress (μ × List Call)}
    (accounts : Accounts t.options restored items p.memory.2 p.outcome)
    (went : Sweep.visit t.logged item p = (.ok (), q)) :
    Accounts t.options restored (items ++ [item]) q.memory.2 q.outcome := by
  obtain ⟨name, o⟩ := item
  have ways := visited t.logged name o p
  rw [went] at ways
  cases ways with
  | skipped known => exact accounts.skip
  | left unknown beyond => exact accounts.leave beyond
  | counted unknown within settling saving =>
    obtain ⟨files, unsaved, rfl⟩ := saving_snd saving
    have step := settled settling
    let c : Call := ⟨name, o, (measure t.logged p name o).1⟩
    have grown := accounts.call (c := c) (p := (measure t.logged p name o).2) unknown within step
    rw [step.memory]
    exact grown

end Step

/-- What the visits of a logged sweep carry on from its start, a sweep that ends well has at its end. -/
theorem run_carried {t : Task μ}
    {I : ResultSet → List (String × Objective) → List Call → Outcome → Prop}
    (start : ∀ restored, I restored [] [] ⟨0, 0, 0, 0, restored⟩)
    (each : ∀ {restored items item} {p q : Progress (μ × List Call)},
      I restored items p.memory.2 p.outcome → visit t.logged item p = (.ok (), q) →
        I restored (items ++ [item]) q.memory.2 q.outcome)
    {files : Files.Tree} {memory : μ} {outcome : Outcome}
    (ended : (run t files memory).result = .ok outcome) :
    ∃ restored there calls, Begins t files restored there ∧
      run t.logged files (memory, []) = ⟨.ok outcome, (run t files memory).files,
        ((run t files memory).memory, calls)⟩ ∧
      I restored t.config.domain.named calls outcome := by
  rw [run_logged] at ended
  obtain ⟨restored, there, p, q, began, walked, saved, whole⟩ := run_eq_ok ended
  obtain ⟨files', unsaved, rest⟩ := save_snd t.logged p
  rw [saved] at rest
  -- The save at the end changes neither counts nor results.
  obtain rfl : q = { p with files := files', unsaved } := rest
  rw [whole] at ended
  obtain rfl : p.outcome = outcome := Except.ok.inj ended
  rw [restore_logged] at began
  refine ⟨restored, there, p.memory.2, begins_of_restore began, ?_, ?_⟩
  · rw [run_logged t, whole]
    rfl
  · exact walk_ok (I := fun done p => I restored done p.memory.2 p.outcome) each (start restored) walked

/-- Whatever the measurer does, and whatever it remembers: a sweep that ends well keeps accounts of
all its objectives, and of the calls that its measurer has logged, beside what it has restored. -/
theorem run_accounts (t : Task μ) (files : Files.Tree) (memory : μ) (outcome : Outcome)
    (ended : (run t files memory).result = .ok outcome) :
    ∃ restored there calls, Begins t files restored there ∧
      run t.logged files (memory, []) = ⟨.ok outcome, (run t files memory).files,
        ((run t files memory).memory, calls)⟩ ∧
      Accounts t.options restored t.config.domain.named calls outcome :=
  run_carried (accounts_start t.options) Accounts.visit ended

theorem ok_of_toOption {ε α β : Type} {result : Except ε α} {f : α → β} {b : β}
    (h : result.toOption.map f = some b) : ∃ a, result = .ok a ∧ f a = b := by
  cases result with
  | error e => cases h
  | ok a => exact ⟨a, rfl, Option.some.inj h⟩

section Fourfold

def fourfold : Config :=
  ⟨some "demo", .standard, [],
    ⟨.ofList [("m", .ofList [("a", .categorical [.ofInt 1, .ofInt 2, .ofInt 3, .ofInt 4])])]⟩⟩

def firstRecord : RunRecord := .of "m_run_0" ⟨"m", .ofList [("a", .ofInt 1)], .empty⟩ .empty

/-- The results of an earlier sweep, which has measured the first objective. -/
def firstResults : ResultSet :=
  ⟨[firstRecord], .ofList [(firstRecord.name, 0)], rfl, [firstRecord.point], rfl⟩

def firstFiles : Files.Tree := (Store.save ⟨"checkpoints"⟩ fourfold "before" firstResults .initial).2

theorem load_firstFiles :
    Store.load ⟨"checkpoints"⟩ fourfold firstFiles = .ok (.restored firstResults) := by
  have saved : Store.save ⟨"checkpoints"⟩ fourfold "before" firstResults .initial =
      (.ok "checkpoints/demo.checkpoint.json", firstFiles) := rfl
  have storable : ∀ r ∈ firstResults.records, r.Storable := by
    intro r hr
    obtain rfl := List.mem_singleton.mp hr
    refine ⟨fun e he => ?_, fun e he => ?_, nofun, nofun⟩
    · obtain rfl := List.mem_singleton.mp he
      exact Json.held_num (n := .int 1) ⟨by decide, by decide⟩
    · obtain rfl := List.mem_singleton.mp he
      exact Nat.zero_le _
  have back : ∀ r ∈ firstResults.records, r.ReadsBack := by
    intro r hr x hx
    obtain rfl := List.mem_singleton.mp hr
    obtain ⟨⟩ := List.mem_singleton.mp (show Number.float x ∈ [Number.int 1] from hx)
  exact Store.load_of_content _ fourfold (Store.read_of_save _ fourfold saved) storable back

end Fourfold

/-- A sweep that stops after two attempts. Every other call of its measurer fails, and failures are
recorded. -/
def moody : Task Nat where
  config := fourfold
  store := ⟨"checkpoints"⟩
  options := ⟨false, 1, .record, some 2⟩
  time := "now"
  measurer name o _ calls :=
    (if calls % 2 = 0 then .ok (.of name o .empty)
      else .error (.measurement (.of "measure-exit" "failed" [])), calls + 1)

theorem run_accounts_moody : ∃ outcome restored there calls,
    (run moody firstFiles 0).result = .ok outcome ∧
      (outcome.measured, outcome.skipped, outcome.failed, outcome.remaining) = (1, 1, 1, 1) ∧
      outcome.results.names = ["m_run_0", "m_run_1", "m_run_2"] ∧
      restored.names = ["m_run_0"] ∧ Begins moody firstFiles restored there ∧
      Accounts moody.options restored moody.config.domain.named calls outcome := by
  have starts : Begins moody firstFiles firstResults firstFiles :=
    ⟨nofun, fun _ => rfl, .inl load_firstFiles⟩
  have counts : (run moody firstFiles 0).result.toOption.map (fun o =>
      ((o.measured, o.skipped, o.failed, o.remaining), o.results.names)) =
        some ((1, 1, 1, 1), ["m_run_0", "m_run_1", "m_run_2"]) := by
    rw [run_of_restore (restore_of_begins starts)]
    decide +kernel
  obtain ⟨outcome, ended, numbers⟩ := ok_of_toOption counts
  obtain ⟨restored, there, calls, begins, _, accounts⟩ :=
    run_accounts moody firstFiles 0 outcome ended
  have same := (begins_iff.mp begins).symm.trans (begins_iff.mp starts)
  obtain rfl := Except.ok.inj (Prod.mk.inj same).1
  exact ⟨outcome, _, there, calls, ended, congrArg Prod.fst numbers, congrArg Prod.snd numbers, rfl,
    begins, accounts⟩

end Sweep

end GridSweep
