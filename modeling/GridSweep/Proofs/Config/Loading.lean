import GridSweep.Config.Load
import GridSweep.Proofs.Config.Building
import GridSweep.Proofs.Decode.Given
import GridSweep.Proofs.Grid.Repetition

namespace GridSweep

open Decode

namespace ParameterSpec

/-- What is known of a declaration that was read: its values are such that JSON libraries hold them. -/
def Readable : ParameterSpec → Prop
  | fixed value => value.Held
  | categorical values => ∀ v ∈ values, v.Held
  | linear _ _ _ | exponential _ _ | distribution _ _ => True

theorem keeps_fields (shape : String) : Keeps (fields shape) Readable := by
  unfold fields
  split
  · apply Record.Keeps.decoder
    apply (Record.keeps_needed keeps_value "value").map
    exact fun _ held => held
  · split
    · apply Record.Keeps.decoder
      apply (Record.keeps_needed keeps_value.list "values").map
      exact fun _ held => held
    · split
      · have min := Record.keeps_needed (keeps_any (integer .i64)) "min"
        have max := Record.keeps_needed (keeps_any (integer .i64)) "max"
        have step := Record.keeps_defaulted (keeps_any (integer .i64)) "step" 1 trivial
        apply Record.Keeps.decoder
        apply (min.and (max.and step)).map
        exact fun _ _ => trivial
      · split
        · have min := Record.keeps_needed (keeps_any (natural .u32)) "min"
          have max := Record.keeps_needed (keeps_any (natural .u32)) "max"
          apply Record.Keeps.decoder
          apply (min.and max).map
          exact fun _ _ => trivial
        · have mean := Record.keeps_needed (keeps_any double) "mean"
          have stddev := Record.keeps_defaulted (keeps_any double) "stddev" .zero trivial
          apply Record.Keeps.decoder
          apply (mean.and stddev).map
          exact fun _ _ => trivial

theorem keeps_decoder : Keeps decoder Readable := keeps_internallyTagged keeps_fields

theorem held_expanded {s : ParameterSpec} (readable : s.Readable) (sound : s.Sound) :
    ∀ j ∈ s.expanded.candidates, j.Held := by
  cases s with
  | fixed value => exact fun j same => List.mem_singleton.mp same ▸ readable
  | categorical values => exact readable
  | linear min max step =>
    have least := min.le_toInt
    have greatest := max.toInt_lt
    refine List.forall_mem_map.mpr fun n hn => Json.held_num ?_
    obtain ⟨above, below, -⟩ := (Range.mem_progression (Range.positive_toInt sound.1)).mp hn
    constructor <;> omega
  | exponential min max =>
    refine List.forall_mem_map.mpr fun i hi => Json.held_num ?_
    have exponent : min + i ≤ 62 := by
      have inside := List.mem_range.mp hi
      have limit : max ≤ 62 := sound.2
      omega
    have power : (2 : Int) ^ (min + i) = (2 ^ (min + i) : Nat) := (Int.natCast_pow 2 _).symm
    have above : (0 : Int) ≤ 2 ^ (min + i) := power ▸ Int.natCast_nonneg _
    have below : (2 : Int) ^ (min + i) ≤ (2 ^ 62 : Nat) :=
      power ▸ Int.ofNat_le.mpr (Nat.pow_le_pow_right (by decide) exponent)
    exact ⟨Int.le_trans (by decide) above, Int.le_trans below (by decide)⟩
  | distribution mean stddev => exact List.forall_mem_nil _

end ParameterSpec

namespace ParameterDecl

theorem gives_collect {c : Context} {l : List (Node × Node)} (bounded : ∀ e ∈ l, e.2.Bounded)
    {seen : Seen} (held : ∀ e ∈ seen.others, e.2.Bounded) :
    Gives (collect c l seen) fun last => ∀ e ∈ last.others, e.2.Bounded := by
  induction l generalizing seen with
  | nil => exact gives_pure held
  | cons e rest ih =>
    obtain ⟨here, later⟩ := List.forall_mem_cons.mp bounded
    rw [collect]
    refine .after _ fun key => ?_
    split
    · split
      · exact gives_throw _
      · exact .after _ fun _ => ih later held
    · exact (keeps_aside c e.2 here).bind fun n hn =>
        ih later (List.forall_mem_cons.mpr ⟨hn, held⟩)

theorem keeps_decoder : Keeps decoder fun d => d.spec.Readable := by
  intro c n bounded
  refine gives_behind bounded fun n bounded => ?_
  have inner := bounded.body
  split
  · rename_i members body
    rw [body] at inner
    cases inner with
    | map each =>
      have start : ∀ e ∈ (Seen.mk none []).others, e.2.Bounded :=
        List.forall_mem_nil _
      refine .after _ fun _ => (gives_collect each start).bind fun seen others => ?_
      split
      · exact gives_throw _
      · have content : (Node.map seen.others.reverse).Bounded :=
          .map fun e he => others e (List.mem_reverse.mp he)
        exact (ParameterSpec.keeps_decoder _ _ content).bind fun spec h => gives_pure h
  · exact gives_throw _

end ParameterDecl

theorem ModelDecl.keeps_decoder : Keeps decoder fun m => ∀ p ∈ m.parameters, p.spec.Readable := by
  have name := Record.keeps_needed (keeps_any text) "name"
  have parameters := Record.keeps_defaulted ParameterDecl.keeps_decoder.list "parameters" []
    (List.forall_mem_nil _)
  apply Record.Keeps.decoder
  apply (name.and parameters).map
  exact fun _ h => h.2

namespace SweepFile

def Readable (f : SweepFile) : Prop := ∀ m ∈ f.models, ∀ p ∈ m.parameters, p.spec.Readable

theorem keeps_decoder : Keeps decoder Readable := by
  have name := Record.keeps_defaulted (keeps_any (option text)) "name" none trivial
  have checkpoint :=
    Record.keeps_defaulted (keeps_any CheckpointSettings.decoder) "checkpoint" .standard trivial
  have constraints :=
    Record.keeps_defaulted (keeps_any (list MetricConstraint.decoder)) "constraints" [] trivial
  have models := Record.keeps_needed ModelDecl.keeps_decoder.list "models"
  apply Record.Keeps.decoder
  apply (name.and (checkpoint.and (constraints.and models))).map
  exact fun _ h => h.2.2.2

variable {f : SweepFile} {d e : Domain}

theorem exists_entry {model : String} {p : ParameterDecl} (h : p ∈ f.parametersOf model) :
    ∃ m ∈ f.models, p ∈ m.parameters := by
  obtain ⟨m, hm, hp⟩ := List.mem_flatMap.mp h
  exact ⟨m, (List.mem_filter.mp hm).1, hp⟩

theorem Item.Built.heldCandidates (built : Item.Built f.items d) (readable : f.Readable)
    (sound : f.Sound) : d.HeldCandidates := by
  intro m hm p hp
  have known : d.parameters? m.1 = some m.2 := Entries.find?_of_mem d.models.distinct hm
  have listed := built.parameters m.1
  rw [known, Option.getD_some, parametersOf_items] at listed
  obtain ⟨q, hq, rfl⟩ := List.mem_map.mp (listed ▸ hp)
  obtain ⟨entry, he, declared⟩ := exists_entry hq
  exact ParameterSpec.held_expanded (readable entry he q declared) (sound.specs entry he q declared)

theorem Item.declared_of_declare (declared : d.Declared) {i : Item} (made : i.declare d = .ok e) :
    e.Declared := by
  cases i with
  | ofModel name => exact declared.addModel made
  | ofParameter model p =>
    have ranged := ranged_of_declare made
    rw [declare, declareParameter_of_ranged ranged] at made
    exact declared.addParameter made

theorem Item.declared_of_declareList {l : List Item} (made : declareList l = .ok d) :
    d.Declared := by
  induction l using List.reverseRecOn generalizing d with
  | nil => exact Except.ok.inj made ▸ .empty
  | append_singleton l i ih =>
    rw [declareList_concat] at made
    cases first : declareList l with
    | error fault =>
      rw [first] at made
      cases made
    | ok front =>
      rw [first] at made
      exact declared_of_declare (ih first) made

end SweepFile

namespace Config

variable {files : Files.Tree} {path : String} {c : Config}

theorem exists_file (loaded : load files path = .ok c) :
    ∃ f : SweepFile, f.Readable ∧ declareAll f.models = .ok c.domain := by
  unfold load at loaded
  split at loaded
  · cases loaded
  · split at loaded
    · cases loaded
    · rename_i f read
      refine ⟨f, Yaml.decodeBytes_of_keeps SweepFile.keeps_decoder read, ?_⟩
      unfold ofFile at loaded
      cases made : declareAll f.models with
      | error fault =>
        rw [made] at loaded
        cases loaded
      | ok d =>
        rw [made] at loaded
        obtain rfl := Except.ok.inj loaded
        rfl

/-- The domain of a configuration that was loaded is one that declarations build, and its candidates are
values that JSON libraries hold. -/
theorem domain_of_load (loaded : load files path = .ok c) :
    c.domain.Declared ∧ c.domain.HeldCandidates := by
  obtain ⟨f, readable, made⟩ := exists_file loaded
  rw [declareAll_eq] at made
  refine ⟨SweepFile.Item.declared_of_declareList made, ?_⟩
  obtain ⟨d, same, clean, built⟩ | ⟨fault, failed, -⟩ := SweepFile.Item.declareList_cases f.items
  · obtain rfl := Except.ok.inj (same.symm.trans made)
    exact built.heldCandidates readable (SweepFile.clean_items_iff.mp clean)
  · cases failed.symm.trans made

end Config

end GridSweep
