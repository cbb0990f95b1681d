import GridSweep.Proofs.Decode.Adjacent
import GridSweep.Proofs.Json.Identity
import GridSweep.Proofs.Results.Roundtrip
import GridSweep.Report

/-!
Errors as they are stored. A diagnostic is read from its members wherever they stand, a report from its
kind and its diagnostic, a sweep error from its family and what is filed under it; so every error is read
back from its text and from its JSON value, and no two errors, of whatever types, have one text
(`StoredError.stored_faithful`).
-/
namespace GridSweep

open Decode

variable {c inner : Context}

namespace Json

theorem decodeText_compact {α : Type} {d : Decoder α} {j : Json} {a : α}
    (back : ∀ n ∈ j.numbers, n.ReadsBack) (read : d .text (.ofJson j) = pure a) :
    decodeText d j.compact = .ok a := by
  simp only [decodeText, ofText_compact back, Document.decode, decodeTree_of_pure read]
  rfl

theorem normal_texts (t : SortedTable String) :
    (ofEntries .str t.entries).normal = ofEntries .str t.entries := by
  rw [normal_ofEntries, SortedTable.entries_ofList_of_ascending t.ascending]
  rfl

theorem numbers_texts (l : List (String × String)) : (ofEntries .str l).numbers = [] := by
  induction l with
  | nil => rfl
  | cons e rest ih => exact ih

theorem depth_texts (l : List (String × String)) : (ofEntries .str l).depth = 1 := by
  induction l with
  | nil => rfl
  | cons e rest ih =>
    have deeper : membersDepth (rest.map fun e => (e.1, str e.2)) = 0 := Nat.succ.inj ih
    simp [ofEntries, depth, membersDepth, deeper]

end Json

namespace Diagnostic

variable {d : Diagnostic} {l : List (String × Json)}

/-- A diagnostic is read from the members of an object, whatever their order. -/
theorem decoder_ofJson (entered : c.enter = pure inner) (distinct : (l.map Prod.fst).Nodup)
    (admits : inner.Admits 1)
    (code : Entries.find? "code" l = some (.str d.code))
    (message : Entries.find? "message" l = some (.str d.message))
    (context : Entries.find? "context" l = some (.ofEntries .str d.context.entries))
    (hint : Entries.find? "hint" l = d.hint.map .str) :
    decoder c (.ofJson (.obj l)) = pure d := by
  have texts : sortedTable text inner (.ofJson (.ofEntries .str d.context.entries)) =
      pure d.context :=
    recovers_sortedTable (fun _ _ _ _ => rfl) inner (by rwa [Json.depth_texts])
  obtain ⟨_, _, _, given⟩ := d
  refine Record.Yields.decoder ?_ entered _
  refine .map _ (.and (by decide) ?_ (.and (by decide) ?_ (.and (by decide) ?_ ?_)))
  · exact .found distinct code rfl
  · exact .found distinct message rfl
  · exact .found distinct context texts
  · cases given with
    | none => exact .absent hint rfl
    | some hinted => exact .found distinct hint rfl

theorem distinct_members (d : Diagnostic) :
    (([("code", Json.str d.code), ("message", .str d.message),
      ("context", .ofEntries .str d.context.entries)] ++
        Json.ifAny "hint" .str d.hint).map Prod.fst).Nodup := by
  cases d.hint <;> simp [Json.ifAny]

theorem depth_encode (d : Diagnostic) : d.encode.depth = 2 := by
  have texts := Json.depth_texts d.context.entries
  cases hint : d.hint <;>
    simp [encode, hint, Json.ifAny, Json.depth, Json.membersDepth, texts]

theorem numbers_encode (d : Diagnostic) : d.encode.numbers = [] := by
  have texts := Json.numbers_texts d.context.entries
  cases hint : d.hint <;>
    simp [encode, hint, Json.ifAny, Json.numbers, Json.memberNumbers, texts]

theorem find?_hint (d : Diagnostic) : Entries.find? "hint" ([("code", Json.str d.code),
    ("message", .str d.message), ("context", .ofEntries .str d.context.entries)] ++
      Json.ifAny "hint" .str d.hint) = d.hint.map .str := by
  cases d.hint <;> rfl

theorem recovers (d : Diagnostic) : Recovers decoder encode d := by
  intro c admits
  rw [d.depth_encode] at admits
  obtain ⟨inner, entered, _, deeper⟩ := Context.Admits.enter admits
  exact decoder_ofJson entered d.distinct_members deeper rfl rfl rfl d.find?_hint

theorem decoder_normal (unlimited : c.limited = false) (d : Diagnostic) :
    decoder c (.ofJson d.encode.normal) = pure d := by
  rw [encode, Json.normal_obj]
  have found (name : String) := Json.find?_normalMembers d.distinct_members name
  refine decoder_ofJson (Context.enter_of_unlimited unlimited) (Json.nodup_normalMembers _)
    (c.admits_of_unlimited unlimited 1) ?_ ?_ ?_ ?_
  · exact found "code"
  · exact found "message"
  · exact (found "context").trans (congrArg some (Json.normal_texts d.context))
  · rw [found, find?_hint]
    cases d.hint <;> rfl

end Diagnostic

theorem Json.depth_pair (tag name content : String) (x : Json) :
    (obj [(tag, str name), (content, x)]).depth = x.depth + 1 := by
  simp [depth, membersDepth]

theorem Json.normal_pair {tag content : String} (before : content < tag) (name : String) (x : Json) :
    (obj [(tag, str name), (content, x)]).normal = obj [(content, x.normal), (tag, str name)] := by
  simp [normalMembers, normal, sorted, SortedTable.ofList, SortedTable.insert,
    SortedTable.empty, Entries.place, before]

/-- Wherever JSON stands and nesting allows, the encoding is read as the value. -/
def RecoversJson {α : Type} (d : Decoder α) (encode : α → Json) (a : α) : Prop :=
  ∀ c : Context, c.origin ≠ .yaml → c.Admits (encode a).depth → d c (.ofJson (encode a)) = pure a

/-- The kinds of a family are all listed, each under a name of its own. -/
class LawfulKind (κ : Type) [Kind κ] : Prop where
  listed (k : κ) : k ∈ (Kind.all : List κ)
  apart (j k : κ) : Kind.name j = Kind.name k → j = k

instance : LawfulKind DomainKind where
  listed k := by cases k <;> decide
  apart j k := by cases j <;> cases k <;> decide

instance : LawfulKind ResultKind where
  listed k := by cases k <;> decide
  apart j k := by cases j <;> cases k <;> decide

instance : LawfulKind CheckpointKind where
  listed k := by cases k <;> decide
  apart j k := by cases j <;> cases k <;> decide

namespace Report

variable {κ : Type} [Kind κ]

theorem numbers_encode (r : Report κ) : r.encode.numbers = [] := by
  simp [encode, Json.numbers, Json.memberNumbers, r.diagnostic.numbers_encode]

theorem depth_encode (r : Report κ) : r.encode.depth = 3 := by
  rw [encode, Json.depth_pair, r.diagnostic.depth_encode]

theorem kind_of_encode {κ' : Type} [Kind κ'] {r : Report κ} {s : Report κ'}
    (same : r.encode = s.encode) : Kind.name r.kind = Kind.name s.kind := by
  simp only [encode, Json.obj.injEq, List.cons.injEq, Prod.mk.injEq, Json.str.injEq] at same
  exact same.1.2

variable [LawfulKind κ]

theorem kindNamed?_name (k : κ) : kindNamed? (Kind.name k) = some k := by
  cases found : kindNamed? (κ := κ) (Kind.name k) with
  | none =>
    exact absurd (beq_self_eq_true _) (List.find?_eq_none.mp found k (LawfulKind.listed k))
  | some j =>
    have same : (Kind.name j == Kind.name k) = true :=
      List.find?_some (p := fun i : κ => Kind.name i == Kind.name k) found
    rw [LawfulKind.apart j k (eq_of_beq same)]

theorem name_mem (k : κ) : Kind.name k ∈ (Kind.all : List κ).map Kind.name :=
  List.mem_map_of_mem (LawfulKind.listed k)

theorem recovers (r : Report κ) : RecoversJson decoder encode r := by
  intro c json admits
  rw [r.depth_encode] at admits
  obtain ⟨inner, entered, origin, deeper⟩ := Context.Admits.enter admits
  refine adjacentlyTagged_tagFirst entered (origin ▸ json) (by decide) (name_mem r.kind) ?_
  simp only [r.diagnostic.recovers inner (by rwa [r.diagnostic.depth_encode]), pure_bind,
    kindNamed?_name]

theorem decoder_normal (unlimited : c.limited = false) (r : Report κ) :
    decoder c (.ofJson r.encode.normal) = pure r := by
  rw [encode, Json.normal_pair (by decide)]
  refine adjacentlyTagged_contentFirst unlimited (by decide) (name_mem r.kind) ?_
  simp only [Diagnostic.decoder_normal (c := c.setAside) rfl, pure_bind, kindNamed?_name]

end Report

namespace SweepError

variable {e : SweepError}

theorem numbers_encode (e : SweepError) : e.encode.numbers = [] := by
  cases e <;> simp [encode, detail, Json.numbers, Json.memberNumbers, Report.numbers_encode,
    Diagnostic.numbers_encode]

theorem depth_detail_le (e : SweepError) : e.detail.depth ≤ 3 := by
  cases e <;> simp [detail, Report.depth_encode, Diagnostic.depth_encode]

theorem family_mem (e : SweepError) : e.family ∈ families := by
  cases e <;> simp [family, families]

/-- What is filed under the family of the error is read as it was filed. -/
def DetailReads (c : Context) (n : Node) : SweepError → Prop
  | domain r => Report.decoder c n = pure r
  | results r => Report.decoder c n = pure r
  | checkpoint r => Report.decoder c n = pure r
  | config d | measurement d | encoding d => Diagnostic.decoder c n = pure d

theorem read_detail {n : Node} (reads : e.DetailReads c n) :
    (if e.family = "Domain" then domain <$> Report.decoder c n
      else if e.family = "Results" then results <$> Report.decoder c n
      else if e.family = "Checkpoint" then checkpoint <$> Report.decoder c n
      else if e.family = "Config" then config <$> Diagnostic.decoder c n
      else if e.family = "Measurement" then measurement <$> Diagnostic.decoder c n
      else encoding <$> Diagnostic.decoder c n) = pure e := by
  cases e <;> simp only [DetailReads] at reads <;>
    simp only [family, String.reduceEq, if_true, if_false, reads, map_pure]

theorem recovers (e : SweepError) : RecoversJson decoder encode e := by
  intro c json admits
  rw [encode, Json.depth_pair] at admits
  obtain ⟨inner, entered, origin, deeper⟩ := Context.Admits.enter admits
  have json : inner.origin ≠ .yaml := origin ▸ json
  refine adjacentlyTagged_tagFirst entered json (by decide) e.family_mem (read_detail ?_)
  cases e with
  | domain r | results r | checkpoint r => exact r.recovers inner json deeper
  | config d | measurement d | encoding d => exact d.recovers inner deeper

theorem decoder_normal (unlimited : c.limited = false) (e : SweepError) :
    decoder c (.ofJson e.encode.normal) = pure e := by
  rw [encode, Json.normal_pair (by decide)]
  refine adjacentlyTagged_contentFirst unlimited (by decide) e.family_mem (read_detail ?_)
  cases e with
  | domain r | results r | checkpoint r => exact r.decoder_normal (c := c.setAside) rfl
  | config d | measurement d | encoding d => exact d.decoder_normal (c := c.setAside) rfl

end SweepError

/-- The encoding is read back from its text, and from its JSON value, in which members are sorted. -/
structure ReadsBothWays {α : Type} (d : Decoder α) (encode : α → Json) (a : α) : Prop where
  text : Json.decodeText d (encode a).compact = .ok a
  value : Json.decodeValue d (encode a).normal = .ok a

theorem readsBothWays {α : Type} {d : Decoder α} {encode : α → Json} {a : α}
    (recovers : RecoversJson d encode a) (shallow : (encode a).depth ≤ 127)
    (numbers : (encode a).numbers = [])
    (normal : d .value (.ofJson (encode a).normal) = pure a) : ReadsBothWays d encode a where
  text := Json.decodeText_compact (by simp [numbers]) (recovers .text (by decide) fun _ => shallow)
  value := decodeTree_of_pure normal 0

theorem ReadsBothWays.inj {α : Type} {d : Decoder α} {encode : α → Json} {a b : α}
    (ha : ReadsBothWays d encode a) (hb : ReadsBothWays d encode b) (same : encode a = encode b) :
    a = b := by
  have read := ha.text
  rw [same, hb.text] at read
  exact (Except.ok.inj read).symm

theorem Diagnostic.readsBothWays (d : Diagnostic) : ReadsBothWays decoder encode d :=
  GridSweep.readsBothWays (fun c _ => d.recovers c) (by rw [d.depth_encode]; decide)
    d.numbers_encode (d.decoder_normal rfl)

theorem Report.readsBothWays {κ : Type} [Kind κ] [LawfulKind κ] (r : Report κ) :
    ReadsBothWays decoder encode r :=
  GridSweep.readsBothWays r.recovers (by rw [r.depth_encode]; decide) r.numbers_encode
    (r.decoder_normal rfl)

theorem SweepError.readsBothWays (e : SweepError) : ReadsBothWays decoder encode e := by
  have shallow : e.encode.depth ≤ 127 := by
    have inner := e.depth_detail_le
    rw [encode, Json.depth_pair]
    omega
  exact GridSweep.readsBothWays e.recovers shallow e.numbers_encode (e.decoder_normal rfl)

theorem Report.encode_ne {κ κ' : Type} [Kind κ] [Kind κ'] [LawfulKind κ] [LawfulKind κ']
    (foreign : ∀ k ∈ (Kind.all : List κ), ∀ k' ∈ (Kind.all : List κ'), Kind.name k ≠ Kind.name k')
    (r : Report κ) (s : Report κ') : r.encode ≠ s.encode := fun same =>
  foreign _ (LawfulKind.listed r.kind) _ (LawfulKind.listed s.kind) (kind_of_encode same)

inductive StoredError where
  | diagnostic (d : Diagnostic)
  | domain (e : DomainError)
  | results (e : ResultError)
  | checkpoint (e : CheckpointError)
  | sweep (e : SweepError)

namespace StoredError

def encode : StoredError → Json
  | diagnostic d => d.encode
  | domain e => e.encode
  | results e => e.encode
  | checkpoint e => e.encode
  | sweep e => e.encode

theorem encode_inj {a b : StoredError} (same : a.encode = b.encode) : a = b := by
  cases a with
  | diagnostic d =>
    cases b with
    | diagnostic d' => exact congrArg diagnostic (d.readsBothWays.inj d'.readsBothWays same)
    | domain _ | results _ | checkpoint _ | sweep _ =>
      simp [encode, Diagnostic.encode, Report.encode, SweepError.encode] at same
  | sweep e =>
    cases b with
    | sweep e' => exact congrArg sweep (e.readsBothWays.inj e'.readsBothWays same)
    | diagnostic _ | domain _ | results _ | checkpoint _ =>
      simp [encode, Diagnostic.encode, Report.encode, SweepError.encode] at same
  | domain r =>
    cases b with
    | domain s => exact congrArg domain (r.readsBothWays.inj s.readsBothWays same)
    | results s => exact absurd same (r.encode_ne (by decide) s)
    | checkpoint s => exact absurd same (r.encode_ne (by decide) s)
    | diagnostic _ | sweep _ =>
      simp [encode, Diagnostic.encode, Report.encode, SweepError.encode] at same
  | results r =>
    cases b with
    | results s => exact congrArg results (r.readsBothWays.inj s.readsBothWays same)
    | domain s => exact absurd same (r.encode_ne (by decide) s)
    | checkpoint s => exact absurd same (r.encode_ne (by decide) s)
    | diagnostic _ | sweep _ =>
      simp [encode, Diagnostic.encode, Report.encode, SweepError.encode] at same
  | checkpoint r =>
    cases b with
    | checkpoint s => exact congrArg checkpoint (r.readsBothWays.inj s.readsBothWays same)
    | domain s => exact absurd same (r.encode_ne (by decide) s)
    | results s => exact absurd same (r.encode_ne (by decide) s)
    | diagnostic _ | sweep _ =>
      simp [encode, Diagnostic.encode, Report.encode, SweepError.encode] at same

/-- Every error, bare or filed under its kind and family, is read back from its text and from its JSON
value, and different errors have different texts. -/
theorem stored_faithful :
    (∀ d : Diagnostic, ReadsBothWays Diagnostic.decoder Diagnostic.encode d) ∧
    (∀ e : DomainError, ReadsBothWays Report.decoder Report.encode e) ∧
    (∀ e : ResultError, ReadsBothWays Report.decoder Report.encode e) ∧
    (∀ e : CheckpointError, ReadsBothWays Report.decoder Report.encode e) ∧
    (∀ e : SweepError, ReadsBothWays SweepError.decoder SweepError.encode e) ∧
    ∀ a b : StoredError, a.encode.compact = b.encode.compact → a = b :=
  ⟨Diagnostic.readsBothWays, Report.readsBothWays, Report.readsBothWays, Report.readsBothWays,
    SweepError.readsBothWays, fun _ _ same => encode_inj (Json.compact_inj.mp same)⟩

end StoredError

end GridSweep
