import GridSweep.Command.Basic
import GridSweep.Proofs.Config.Loading
import GridSweep.Proofs.Json.Canonical
import GridSweep.Proofs.Sweep.Resume

namespace GridSweep

/-- None of the characters is a control character, as line breaks are. -/
def Printing (cs : List Char) : Prop := ∀ c ∈ cs, 0x20 ≤ c.toNat

instance (cs : List Char) : Decidable (Printing cs) := List.decidableBAll _ cs

theorem printing_nil : Printing [] := nofun

theorem Printing.append {cs ds : List Char} (first : Printing cs) (second : Printing ds) :
    Printing (cs ++ ds) :=
  List.forall_mem_append.mpr ⟨first, second⟩

theorem Printing.cons {c : Char} {cs : List Char} (first : 0x20 ≤ c.toNat) (second : Printing cs) :
    Printing (c :: cs) :=
  List.forall_mem_cons.mpr ⟨first, second⟩

namespace Json

theorem printing_escape (c : Char) : Printing (escape c) := by
  have short : ∀ d ∈ shortEscape c, 0x20 ≤ d.toNat := by
    unfold shortEscape
    split_ifs <;> simp
  have digit : ∀ n < 16, 0x20 ≤ (hexDigit n).toNat := by decide
  unfold escape
  split
  · rename_i d found
    exact .cons (by decide) (.cons (short d found) printing_nil)
  · split
    · rename_i low
      have start : Printing ['\\', 'u', '0', '0'] := by decide
      have high : 0x20 ≤ (hexDigit (c.toNat / 16)).toNat := digit _ (by omega)
      have rest : 0x20 ≤ (hexDigit (c.toNat % 16)).toNat := digit _ (by omega)
      exact start.append (.cons high (.cons rest printing_nil))
    · rename_i visible
      exact .cons (Nat.le_of_not_lt visible) printing_nil

theorem printing_quoted (s : String) : Printing (quoted s) := by
  have inner : Printing (s.toList.flatMap escape) :=
    List.forall_mem_flatMap.mpr fun c _ => printing_escape c
  exact .cons (by decide) (inner.append (.cons (by decide) printing_nil))

theorem printing_further {l : List (List Char)} (each : ∀ part ∈ l, Printing part) :
    Printing (Spacing.compact.further l) := by
  induction l with
  | nil => exact printing_nil
  | cons part rest ih =>
    obtain ⟨here, later⟩ := List.forall_mem_cons.mp each
    exact .cons (by decide) (here.append (ih later))

theorem printing_parts {l : List (List Char)} (each : ∀ part ∈ l, Printing part) :
    Printing (Spacing.compact.parts l) := by
  cases l with
  | nil => exact printing_nil
  | cons part rest =>
    obtain ⟨here, later⟩ := List.forall_mem_cons.mp each
    exact here.append (printing_further later)

theorem printing_chars (j : Json) : Printing (chars .compact j) := by
  induction j using tree_induction with
  | null => decide
  | bool b => cases b <;> decide
  | num n =>
    have each : Printing numeralAlphabet := by decide
    rw [chars, n.text_eq_chars]
    exact fun c hc => each c (mem_numeralAlphabet n.proper_numeral hc)
  | str s => exact printing_quoted s
  | arr items ih =>
    rw [chars, inner_compact, itemChars_eq_map]
    have parts := printing_parts (List.forall_mem_map.mpr ih)
    exact .append (.cons (by decide) parts) (.cons (by decide) printing_nil)
  | obj members ih =>
    have each : ∀ e ∈ members, Printing (memberText (e.1, chars .compact e.2)) := fun e he =>
      (printing_quoted e.1).append (.cons (by decide) (ih e he))
    have parts := printing_parts (List.forall_mem_map.mpr each)
    rw [chars, inner_compact, memberChars_eq_map, Entries.mapValues, List.map_map]
    exact .append (.cons (by decide) parts) (.cons (by decide) printing_nil)

theorem printing_compact (j : Json) : Printing j.compact.toList := by
  rw [toList_compact]
  exact printing_chars j

theorem distinct_normal (j : Json) : j.normal.Distinct := by
  induction j using tree_induction with
  | null => exact .null
  | bool b => exact .bool b
  | num n => exact .num n
  | str s => exact .str s
  | arr items ih =>
    rw [normal, normalItems_eq_map]
    exact .arr (List.forall_mem_map.mpr ih)
  | obj members ih =>
    refine .obj (nodup_normalMembers members) fun e he => ?_
    have known := SortedTable.mem_of_mem_ofList he
    rw [normalMembers_eq_mapValues] at known
    obtain ⟨d, hd, rfl⟩ := List.mem_map.mp known
    exact ih d hd

theorem Held.distinct {j : Json} (held : j.Held) : j.Distinct := held.normal ▸ distinct_normal j

theorem distinct_ofDouble (x : Double) : (ofDouble x).Distinct := by
  unfold ofDouble
  split
  · exact .num _
  · exact .null

theorem distinct_ofEntries {α : Type} {encode : α → Json} {entries : List (String × α)}
    (names : (entries.map Prod.fst).Nodup) (each : ∀ e ∈ entries, (encode e.2).Distinct) :
    (ofEntries encode entries).Distinct := by
  have keys : (Entries.mapValues encode entries).map Prod.fst = entries.map Prod.fst :=
    Entries.keys_mapValues encode entries
  exact .obj (keys ▸ names) (List.forall_mem_map.mpr each)

theorem parse?_canonical {j : Json} (distinct : j.Distinct) (held : ∀ n ∈ j.numbers, n.Held)
    (floats : ∀ x, Number.float x ∈ j.numbers → x.ReadsBack) (shallow : j.depth ≤ 127) :
    parse? j.canonical = some j.normal := by
  have known : ∀ n ∈ j.normal.numbers, n ∈ j.numbers := fun _ hn => distinct.numbers_normal hn
  have back := readsBack_of_held held floats
  have read := parse?_compact (fun n hn => held n (known n hn)) fun n hn => back n (known n hn)
  rwa [distinct.depth_normal, if_pos shallow, normal_normal] at read

end Json

theorem Distribution.distinct_encode (d : Distribution) : d.encode.Distinct := by
  refine .obj (by simp) ?_
  simp only [List.forall_mem_cons]
  exact ⟨Json.distinct_ofDouble _, Json.distinct_ofDouble _, nofun⟩

theorem Objective.distinct_encode {o : Objective} (held : o.HeldValues) : o.encode.Distinct := by
  have values : o.encodeValues.Distinct :=
    Json.distinct_ofEntries o.values.distinct fun e he => (held e he).distinct
  have distributions : o.encodeDistributions.Distinct :=
    Json.distinct_ofEntries o.distributions.distinct fun e _ => e.2.distinct_encode
  unfold encode
  split
  · refine .obj (by simp) ?_
    simp only [List.append_nil, List.forall_mem_cons]
    exact ⟨.str _, values, nofun⟩
  · refine .obj (by simp) ?_
    simp only [List.cons_append, List.nil_append, List.forall_mem_cons]
    exact ⟨.str _, values, distributions, nofun⟩

namespace Command

theorem toList_lines (l : List String) : (lines l).toList = l.flatMap fun s => s.toList ++ ['\n'] := by
  simp [lines, List.flatMap_map]

theorem splitOn_lines {l : List String} (printing : ∀ s ∈ l, Printing s.toList) :
    (lines l).toList.splitOn '\n' = l.map String.toList ++ [[]] := by
  rw [toList_lines]
  induction l with
  | nil => rfl
  | cons s rest ih =>
    obtain ⟨here, later⟩ := List.forall_mem_cons.mp printing
    have unbroken : '\n' ∉ s.toList := fun broken => absurd (here _ broken) (by decide)
    rw [List.flatMap_cons, List.append_assoc, List.singleton_append,
      List.splitOn_append_cons_self_of_not_mem unbroken, ih later]
    rfl

/-- The line is the JSON text of an object with the name and an objective that equals this one. -/
def Tells (line : String) (item : String × Objective) : Prop :=
  ∃ v shown o, Json.parse? line = some v ∧ v.member? "run_name" = some (.str item.1) ∧
    v.member? "objective" = some shown ∧ Json.decodeValue Objective.decoder shown = .ok o ∧
    o.same item.2 = true

theorem tells_planLine {item : String × Objective} (held : item.2.HeldValues)
    (finite : ∀ e ∈ item.2.distributions.entries, e.2.mean.isFinite = true ∧ e.2.stddev.isFinite = true)
    (shallow : ∀ e ∈ item.2.values.entries, e.2.depth ≤ 124)
    (back : ∀ x, Number.float x ∈ item.2.encode.numbers → x.ReadsBack) :
    Tells (planLine true item) item := by
  obtain ⟨name, o⟩ := item
  let whole := Json.obj [("run_name", .str name), ("objective", o.encode)]
  have distinct : whole.Distinct := by
    refine .obj (by simp) ?_
    simp only [List.forall_mem_cons]
    exact ⟨.str _, o.distinct_encode held, nofun⟩
  have numbers : whole.numbers = o.encode.numbers := by
    simp [whole, Json.numbers, Json.memberNumbers]
  have depth : whole.depth ≤ 127 := by
    have inner := o.depth_encode_le shallow (by decide)
    simp only [whole, Json.depth, Json.membersDepth]
    omega
  have read : Json.parse? (planLine true (name, o)) = some whole.normal := by
    apply Json.parse?_canonical distinct _ _ depth
    · exact fun n hn => o.held_encode held (numbers ▸ hn)
    · exact fun x hx => back x (numbers ▸ hx)
  have decoded : Json.decodeValue Objective.decoder o.encode.normal = .ok o.sorted :=
    Decode.decodeTree_of_pure (Objective.decoder_normal rfl held finite) 0
  have bounded : o.Finite := ⟨fun e he => (held e he).numbers, finite⟩
  exact ⟨whole.normal, o.encode.normal, o.sorted, read, Json.member?_normal, Json.member?_normal,
    decoded, Objective.same_of_sorted o.sorted_sorted bounded.sorted⟩

section Plan

variable {c : Config}

theorem tells_named (declared : c.domain.Declared) (held : c.domain.HeldCandidates)
    (shallow : ∀ m ∈ c.domain.models.entries, ∀ p ∈ m.2.entries, ∀ j ∈ p.2.candidates, j.depth ≤ 124)
    (back : ∀ x, Number.float x ∈ c.domain.encode.numbers → x.ReadsBack) :
    ∀ item ∈ c.domain.named, Tells (planLine true item) item := by
  intro item listed
  obtain ⟨m, hm, values, -⟩ := declared.mem_named listed
  apply tells_planLine (declared.heldValues held listed) (declared.finite listed)
  · intro e he
    obtain ⟨p, hp, candidate⟩ := values e he
    exact shallow m hm p hp e.2 candidate
  · exact fun x hx => back x (declared.mem_numbers listed hx)

/-- The plan has one line for each answer of the cursor, in the same order. -/
theorem plan_of_tells (declared : c.domain.Declared)
    (tells : ∀ item ∈ c.domain.named, Tells (planLine true item) item) :
    ∃ ls : List String, (plan c true).toList.splitOn '\n' = ls.map String.toList ++ [[]] ∧
      (∀ l ∈ ls, Printing l.toList) ∧
      ∀ i, Option.Rel Tells ls[i]? (((NamedCursor.ofDomain c.domain).drop i).next?.map Prod.fst) := by
  have printing : ∀ l ∈ c.domain.named.map (planLine true), Printing l.toList :=
    List.forall_mem_map.mpr fun item _ => Json.printing_compact _
  refine ⟨c.domain.named.map (planLine true), splitOn_lines printing, printing, fun i => ?_⟩
  rw [NamedCursor.next?_drop declared, List.getElem?_map]
  cases listed : c.domain.named[i]? with
  | none => exact .none
  | some item => exact .some (tells item (List.mem_of_getElem? listed))

end Plan

theorem call_plan (e : Environment) {arguments : List String} {files : Files.Tree} {path : String}
    {c : Config} (asked : Line.ofArguments arguments = .ok (.plan path true))
    (loaded : Config.load files path = .ok c) :
    call e arguments files = ⟨0, plan c true, none, files⟩ := by
  have given : Config.load files (Line.plan path true).config = .ok c := loaded
  have ran : execute e (.plan path true) files = ⟨plan c true, none, files⟩ := by
    rw [execute, given]
    rfl
  rw [call, asked]
  simp only [ran]
  rfl

/-- Asked for a plan as JSON, the program prints one line for each answer of the cursor over the named
objectives of the configuration, whatever characters names and values are made of: the line has no line
break or other control character in it, and is a JSON text that tells the name and the objective. -/
theorem plan_decodable (e : Environment) {arguments : List String} {files : Files.Tree}
    {path : String} {c : Config} (asked : Line.ofArguments arguments = .ok (.plan path true))
    (loaded : Config.load files path = .ok c)
    (shallow : ∀ m ∈ c.domain.models.entries, ∀ p ∈ m.2.entries, ∀ j ∈ p.2.candidates, j.depth ≤ 124)
    (back : ∀ x, Number.float x ∈ c.domain.encode.numbers → x.ReadsBack) :
    ∃ (output : String) (ls : List String),
      call e arguments files = ⟨0, output, none, files⟩ ∧
      output.toList.splitOn '\n' = ls.map String.toList ++ [[]] ∧
      (∀ l ∈ ls, Printing l.toList) ∧
      ∀ i, Option.Rel Tells ls[i]? (((NamedCursor.ofDomain c.domain).drop i).next?.map Prod.fst) := by
  obtain ⟨declared, held⟩ := Config.domain_of_load loaded
  obtain ⟨ls, split⟩ := plan_of_tells declared (tells_named declared held shallow back)
  exact ⟨plan c true, ls, call_plan e asked loaded, split⟩

/-- A file with line breaks in a model's name, in a parameter's and in a value. -/
def brokenNames : String :=
  "models:\n  - name: \"a\\nb\"\n    parameters:\n" ++
  "      - name: \"p\\r\"\n        type: categorical\n        values:\n" ++
  "          - \"x\\ny\"\n          - k: [0.5]\n" ++
  "      - name: load\n        type: distribution\n        mean: 1.5\n"

def brokenNamesFile : Files.Tree := ⟨[(["home", "sweep.yaml"], .file brokenNames.toUTF8)], ["home"]⟩

/-- The two objectives of the file take one line each. -/
theorem plan_decodable_brokenNames :
    ∃ c output, Config.load brokenNamesFile "sweep.yaml" = .ok c ∧ c.domain.named.length = 2 ∧
      ∃ ls : List String,
        call ⟨fun _ _ _ => .error "not started", "now"⟩ ["plan", "--config", "sweep.yaml", "--json"]
          brokenNamesFile = ⟨0, output, none, brokenNamesFile⟩ ∧
        output.toList.splitOn '\n' = ls.map String.toList ++ [[]] ∧
        (∀ l ∈ ls, Printing l.toList) ∧
        ∀ i, Option.Rel Tells ls[i]?
          (((NamedCursor.ofDomain c.domain).drop i).next?.map Prod.fst) := by
  have asked : Line.ofArguments ["plan", "--config", "sweep.yaml", "--json"] =
      .ok (.plan "sweep.yaml" true) := rfl
  have read : ∃ c ∈ (Config.load brokenNamesFile "sweep.yaml").toOption,
      c.domain.named.length = 2 ∧
      (∀ m ∈ c.domain.models.entries, ∀ p ∈ m.2.entries, ∀ j ∈ p.2.candidates, j.depth ≤ 124) ∧
      ∀ n ∈ c.domain.encode.numbers, n.numeral.number? = some n ∧ n.toDouble.isFinite = true := by
    decide +kernel
  obtain ⟨c, found, two, shallow, floats⟩ := read
  have loaded : Config.load brokenNamesFile "sweep.yaml" = .ok c := by
    cases given : Config.load brokenNamesFile "sweep.yaml" with
    | error e => rw [given] at found; cases found
    | ok d => rw [given] at found; cases found; rfl
  obtain ⟨output, ls, called⟩ := plan_decodable ⟨fun _ _ _ => .error "not started", "now"⟩ asked loaded
    shallow fun x hx => Double.readsBack_of_numeral (floats _ hx).2 (floats _ hx).1
  exact ⟨c, output, loaded, two, ls, called⟩

end Command

end GridSweep
