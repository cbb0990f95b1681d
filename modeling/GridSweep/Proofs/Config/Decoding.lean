import GridSweep.Config.File
import GridSweep.Proofs.Decode.Variant
import GridSweep.Proofs.Results.Decoding

namespace GridSweep

open Decode

variable {c : Context}

theorem Decode.Record.Yields.free_normal {α : Type} {key : String} {d : Decoder α} {encode : α → Json}
    {members : List (String × Json)} {o : Option α} (distinct : (members.map Prod.fst).Nodup)
    (found : Entries.find? key members = o.map encode)
    (reads : ∀ x, o = some x → option d c (.ofJson (encode x).normal) = pure (some x)) :
    (Record.field (.free key d)).Yields c (Json.sorted (Json.normalMembers members)) o := by
  cases o with
  | none => exact .absent_normal distinct found rfl
  | some x => exact .found_normal distinct found (reads x rfl)

namespace MetricConstraint

structure Finite (m : MetricConstraint) : Prop where
  min : ∀ x ∈ m.min, x.isFinite = true
  max : ∀ x ∈ m.max, x.isFinite = true

theorem decoder_normal {m : MetricConstraint} (unlimited : c.limited = false) (finite : m.Finite) :
    decoder c (.ofJson m.encode.normal) = pure m := by
  have bound {x : Double} (finite : x.isFinite = true) :
      option double c (.ofJson (Json.ofDouble x).normal) = pure (some x) := by
    rw [Json.normal_ofDouble, Json.ofDouble, if_pos finite]
    rfl
  obtain ⟨metric, min, max⟩ := m
  have distinct : (([("metric", Json.str metric)] ++ Json.ifAny "min" .ofDouble min ++
      Json.ifAny "max" .ofDouble max).map Prod.fst).Nodup := by
    cases min <;> cases max <;> simp [Json.ifAny]
  rw [encode, Json.normal_obj]
  refine Record.Yields.decoder ?_ (Context.enter_of_unlimited unlimited) _
  refine .map _ (.and (by decide) ?_ (.and (by decide) ?_ ?_))
  · exact .found_normal distinct rfl rfl
  · refine .free_normal distinct ?_ fun x given => bound (finite.min x given)
    cases min <;> cases max <;> rfl
  · refine .free_normal distinct ?_ fun x given => bound (finite.max x given)
    cases min <;> cases max <;> rfl

end MetricConstraint

namespace ParameterSpec

/-- What a program can hold: values as JSON libraries hold them, exponents within their width, finite
floating-point numbers. -/
def Held : ParameterSpec → Prop
  | fixed value => value.Held
  | categorical values => ∀ v ∈ values, v.Held
  | linear _ _ _ => True
  | exponential min max => Width.u32.holds min = true ∧ Width.u32.holds max = true
  | distribution mean stddev => mean.isFinite = true ∧ stddev.isFinite = true

def shape : ParameterSpec → String
  | fixed _ => "fixed"
  | categorical _ => "categorical"
  | linear _ _ _ => "linear"
  | exponential _ _ => "exponential"
  | distribution _ _ => "distribution"

theorem shape_mem (s : ParameterSpec) : s.shape ∈ shapes := by
  cases s <;> simp [shape, shapes]

theorem holds_toInt (w : Int64) : Width.i64.holds w.toInt = true := by
  have least : -0x8000000000000000 ≤ w.toInt := w.le_toInt
  have greatest : w.toInt ≤ 0x7fffffffffffffff := Int.le_of_lt_add_one w.toInt_lt
  exact Bool.and_eq_true_iff.mpr ⟨decide_eq_true least, decide_eq_true greatest⟩

theorem fields_ofJson {s : ParameterSpec} {l : List (String × Json)} (unlimited : c.limited = false)
    (held : s.Held) (distinct : (l.map Prod.fst).Nodup)
    (has : ∀ key x, (key, x) ∈ s.members → key ≠ "type" → Entries.find? key l = some x.normal) :
    fields s.shape c (.ofJson (.obj l)) = pure s := by
  have entered := Context.enter_of_unlimited unlimited
  cases s with
  | fixed v =>
    have value := has "value" v (by simp [members]) (by decide)
    simp only [shape, fields, String.reduceEq, if_false]
    refine Record.Yields.decoder (.map _ ?_) entered _
    exact .found distinct value (value_normal unlimited held)
  | categorical vs =>
    have values := has "values" (.arr vs) (by simp [members]) (by decide)
    have read : list Decode.value c (.ofJson (Json.arr vs).normal) = pure vs := by
      have each := list_ofArr id id unlimited fun v hv => value_normal unlimited (held v hv)
      rwa [List.map_id] at each
    simp only [shape, fields, String.reduceEq, if_true, if_false]
    refine Record.Yields.decoder (.map _ ?_) entered _
    exact .found distinct values read
  | linear min max step =>
    have low := has "min" (.ofInt min.toInt) (by simp [members]) (by decide)
    have high := has "max" (.ofInt max.toInt) (by simp [members]) (by decide)
    have stride := has "step" (.ofInt step.toInt) (by simp [members]) (by decide)
    have read : linearRecord.decoder "struct variant ParameterSpec::Linear" c (.ofJson (.obj l)) =
        pure (linear (.ofInt min.toInt) (.ofInt max.toInt) (.ofInt step.toInt)) := by
      refine Record.Yields.decoder (.map _ (.and (by decide) ?_ (.and (by decide) ?_ ?_))) entered _
      · exact .found distinct low (integer_ofInt (c := c) (holds_toInt min))
      · exact .found distinct high (integer_ofInt (c := c) (holds_toInt max))
      · exact .found distinct stride (integer_ofInt (c := c) (holds_toInt step))
    simp only [Int64.ofInt_toInt] at read
    simp only [shape, fields, String.reduceEq, if_true, if_false]
    exact read
  | exponential min max =>
    obtain ⟨heldMin, heldMax⟩ := held
    have low := has "min" (.ofNat min) (by simp [members]) (by decide)
    have high := has "max" (.ofNat max) (by simp [members]) (by decide)
    simp only [shape, fields, String.reduceEq, if_true, if_false]
    refine Record.Yields.decoder (.map _ (.and (by decide) ?_ ?_)) entered _
    · exact .found distinct low (natural_ofNat (c := c) heldMin)
    · exact .found distinct high (natural_ofNat (c := c) heldMax)
  | distribution mean stddev =>
    obtain ⟨heldMean, heldStddev⟩ := held
    have center := has "mean" (.ofDouble mean) (by simp [members]) (by decide)
    have spread := has "stddev" (.ofDouble stddev) (by simp [members]) (by decide)
    simp only [shape, fields, String.reduceEq, if_false]
    refine Record.Yields.decoder (.map _ (.and (by decide) ?_ ?_)) entered _
    · exact .found distinct center (double_ofDouble (c := c) heldMean)
    · exact .found distinct spread (double_ofDouble (c := c) heldStddev)

/-- A shape is read from every object that has its members, whatever else the object has. -/
theorem decoder_ofJson {s : ParameterSpec} {l : List (String × Json)} (unlimited : c.limited = false)
    (held : s.Held) (distinct : (l.map Prod.fst).Nodup)
    (has : ∀ key x, (key, x) ∈ s.members → Entries.find? key l = some x.normal) :
    decoder c (.ofJson (.obj l)) = pure s := by
  have tag : Entries.find? "type" l = some (.str s.shape) := by
    apply has "type" (.str s.shape)
    cases s <;> exact List.mem_cons_self
  obtain ⟨m, without, read⟩ := internallyTagged_ofJson unlimited distinct tag s.shape_mem
  rw [decoder, read]
  apply fields_ofJson rfl held without.distinct
  intro key x known apart
  rw [without.others key apart, has key x known]

end ParameterSpec

namespace ParameterDecl

theorem collect_foreign {l : List (String × Json)} (unlimited : c.limited = false)
    (foreign : "name" ∉ l.map Prod.fst) (rest : List (Node × Node)) (seen : Seen) :
    collect c (Node.ofMembers l ++ rest) seen =
      collect c rest ⟨seen.name, (Node.ofMembers l).reverse ++ seen.others⟩ := by
  induction l generalizing seen with
  | nil => rfl
  | cons e l ih =>
    obtain ⟨other, later⟩ := not_or.mp (List.mem_cons.not.mp foreign)
    have key : textAs "field identifier" c (.str e.1) = pure e.1 := rfl
    rw [Node.ofMembers, List.cons_append, collect, key, pure_bind]
    simp only [if_neg (Ne.symm other), aside_ofJson unlimited, pure_bind]
    rw [ih later, List.reverse_cons, List.append_assoc]
    rfl

theorem decoder_ofJson {l : List (String × Json)} {name : String} (unlimited : c.limited = false)
    (distinct : (l.map Prod.fst).Nodup) (found : Entries.find? "name" l = some (.str name)) :
    ∃ m, Entries.Without "name" l m ∧ decoder c (.ofJson (.obj l)) =
      mk name <$> ParameterSpec.decoder c.setAside (.ofJson (.obj m)) := by
  obtain ⟨before, after, rfl, earlier, later⟩ := Entries.exists_split distinct found
  refine ⟨before ++ after, Entries.without_of_split distinct, ?_⟩
  have key : textAs "field identifier" c (.str "name") = pure "name" := rfl
  have given : text c (.str name) = pure name := rfl
  have whole : Node.ofMembers after = Node.ofMembers after ++ [] := (List.append_nil _).symm
  have seen : collect c (Node.ofMembers (before ++ ("name", .str name) :: after)) ⟨none, []⟩ =
      pure ⟨some name, (Node.ofMembers (before ++ after)).reverse⟩ := by
    rw [Node.ofMembers_append, collect_foreign unlimited earlier, Node.ofMembers, collect, key,
      pure_bind]
    simp only [if_true, Option.isSome_none, Bool.false_eq_true, if_false, Node.ofJson, given,
      pure_bind]
    rw [whole, collect_foreign unlimited later, collect]
    simp only [Node.ofMembers_append, List.reverse_append, List.append_nil]
  simp only [Node.ofJson, decoder, behind, Node.body, Context.enter_of_unlimited unlimited, pure_bind,
    seen, List.reverse_reverse]
  rfl

theorem decoder_normal {d : ParameterDecl} (unlimited : c.limited = false) (held : d.spec.Held) :
    decoder c (.ofJson d.encode.normal) = pure d := by
  have distinct : ((("name", Json.str d.name) :: d.spec.members).map Prod.fst).Nodup := by
    cases d.spec <;> simp [ParameterSpec.members]
  have named : Entries.find? "name"
      (Json.sorted (Json.normalMembers (("name", .str d.name) :: d.spec.members))) =
        some (.str d.name) := by
    rw [Json.find?_normalMembers distinct]
    rfl
  obtain ⟨m, without, read⟩ := decoder_ofJson unlimited (Json.nodup_normalMembers _) named
  have has (key : String) (x : Json) (known : (key, x) ∈ d.spec.members) :
      Entries.find? key m = some x.normal := by
    have apart : key ≠ "name" := by
      rintro rfl
      have taken : "name" ∈ d.spec.members.map Prod.fst := List.mem_map_of_mem known
      exact (List.nodup_cons.mp distinct).1 taken
    rw [without.others key apart, Json.find?_normalMembers distinct,
      Entries.find?_of_mem distinct (List.mem_cons_of_mem _ known), Option.map_some]
  rw [encode, Json.normal_obj, read, ParameterSpec.decoder_ofJson rfl held without.distinct has]
  rfl

end ParameterDecl

theorem ModelDecl.decoder_normal {m : ModelDecl} (unlimited : c.limited = false)
    (held : ∀ p ∈ m.parameters, p.spec.Held) : decoder c (.ofJson m.encode.normal) = pure m := by
  have parameters := list_ofArr ParameterDecl.encode id unlimited fun p hp =>
    ParameterDecl.decoder_normal unlimited (held p hp)
  rw [List.map_id] at parameters
  rw [encode, Json.normal_obj]
  refine Record.Yields.decoder ?_ (Context.enter_of_unlimited unlimited) _
  refine .map _ (.and (by decide) ?_ ?_)
  · exact .found_normal (by simp) rfl rfl
  · exact .found_normal (by simp) rfl parameters

theorem CheckpointSettings.decoder_normal {s : CheckpointSettings} (unlimited : c.limited = false)
    (held : Width.usize.holds s.interval = true) :
    decoder c (.ofJson s.encode.normal) = pure s := by
  rw [encode, Json.normal_obj]
  refine Record.Yields.decoder ?_ (Context.enter_of_unlimited unlimited) _
  refine .map _ (.and (by decide) ?_ ?_)
  · exact .found_normal (by simp) rfl rfl
  · exact .found_normal (by simp) rfl (natural_ofNat (c := c) held)

namespace SweepFile

/-- A file as a program can hold it, without infinite numbers. -/
structure Held (f : SweepFile) : Prop where
  interval : Width.usize.holds f.checkpoint.interval = true
  constraints : ∀ m ∈ f.constraints, m.Finite
  parameters : ∀ m ∈ f.models, ∀ p ∈ m.parameters, p.spec.Held

theorem decoder_normal {f : SweepFile} (unlimited : c.limited = false) (held : f.Held) :
    decoder c (.ofJson f.encode.normal) = pure f := by
  have named : option text c (.ofJson (Json.ofOption .str f.name).normal) = pure f.name := by
    cases f.name <;> rfl
  have constraints := list_ofArr MetricConstraint.encode id unlimited fun m hm =>
    MetricConstraint.decoder_normal unlimited (held.constraints m hm)
  have models := list_ofArr ModelDecl.encode id unlimited fun m hm =>
    ModelDecl.decoder_normal unlimited (held.parameters m hm)
  rw [List.map_id] at constraints models
  rw [encode, Json.normal_obj]
  refine Record.Yields.decoder ?_ (Context.enter_of_unlimited unlimited) _
  refine .map _ (.and (by decide) ?_ (.and (by decide) ?_ (.and (by decide) ?_ ?_)))
  · exact .found_normal (by simp) rfl named
  · exact .found_normal (by simp) rfl (CheckpointSettings.decoder_normal unlimited held.interval)
  · exact .found_normal (by simp) rfl constraints
  · exact .found_normal (by simp) rfl models

/-- A configuration file is decoded from the JSON value that it is encoded as. -/
theorem decodeValue_encode {f : SweepFile} (held : f.Held) :
    Json.decodeValue decoder f.encode.normal = .ok f :=
  decodeTree_of_pure (decoder_normal rfl held) 0

/-- Every shape, under the names of members; the ends of the integers, a negative zero, and null. -/
def everyShape : SweepFile :=
  ⟨none, ⟨"out", 0⟩, [⟨"latency", none, some .one⟩, ⟨"rate", some Double.zero.negate, none⟩],
    [⟨"m", [⟨"type", .fixed .null⟩,
        ⟨"name", .categorical [.obj [("name", .str "\n"), ("type", .arr [.null])], .num (.int (-1))]⟩,
        ⟨"", .linear (-0x8000000000000000) 0x7fffffffffffffff 0⟩,
        ⟨"min", .exponential 0 0xffffffff⟩, ⟨"value", .distribution .one Double.zero.negate⟩]⟩,
      ⟨"empty", []⟩]⟩

theorem held_everyShape : everyShape.Held where
  interval := by decide
  constraints := by
    have one : Double.one.isFinite = true := by decide +kernel
    have negative : Double.zero.negate.isFinite = true := by decide +kernel
    simp only [everyShape, List.forall_mem_cons]
    refine ⟨⟨nofun, fun x given => ?_⟩, ⟨fun x given => ?_, nofun⟩, by simp⟩
    · rw [← Option.some.inj given]
      exact one
    · rw [← Option.some.inj given]
      exact negative
  parameters := by
    have number : Number.Held (.int (-1)) := by
      constructor <;> decide
    simp only [everyShape, List.forall_mem_cons]
    refine ⟨⟨⟨rfl, nofun⟩, ?_, trivial, ⟨?_, ?_⟩, ⟨?_, ?_⟩, by simp⟩, by simp, by simp⟩
    · simp only [ParameterSpec.Held, List.forall_mem_cons]
      exact ⟨⟨rfl, nofun⟩, Json.held_num number, by simp⟩
    all_goals decide +kernel

theorem decodeValue_encode_everyShape :
    Json.decodeValue decoder everyShape.encode.normal = .ok everyShape :=
  decodeValue_encode held_everyShape

end SweepFile

end GridSweep
