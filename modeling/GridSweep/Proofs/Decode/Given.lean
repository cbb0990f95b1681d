import GridSweep.Config.Declaration
import GridSweep.Proofs.Json.Rereading
import GridSweep.Yaml.Document

/-!
What readers give. Every whole number in a document is one of 64 bits (`Yaml.Document.bounded_node`), and a
part that is set aside keeps this (`keeps_aside`). So the values that are read are values that JSON libraries
hold (`keeps_value`), in lists, in records (`Record.Keeps.decoder`) and under tags
(`keeps_internallyTagged`).
-/
namespace GridSweep

theorem SortedTable.mem_of_mem_ofList {α : Type} {l : List (String × α)} {e : String × α}
    (h : e ∈ (ofList l).entries) : e ∈ l := by
  have found : Entries.find? e.1 (ofList l).entries = some e.2 :=
    Entries.find?_of_mem (Entries.nodup_keys_of_ascending (ofList l).ascending) h
  rw [find?_ofList] at found
  exact List.mem_reverse.mp (Entries.mem_of_find? found)

namespace Json

theorem held_arr {items : List Json} (each : ∀ x ∈ items, x.Held) : (arr items).Held where
  normal := by
    have same : items.map normal = items :=
      (List.map_congr_left fun x hx => (each x hx).normal).trans items.map_id
    rw [Json.normal, normalItems_eq_map, same]
  numbers n hn := by
    obtain ⟨x, hx, hn⟩ := mem_itemNumbers.mp hn
    exact (each x hx).numbers n hn

theorem held_sorted {members : List (String × Json)} (each : ∀ e ∈ members, e.2.Held) :
    (obj (sorted members)).Held where
  normal := by
    have same : Entries.mapValues Json.normal (sorted members) = sorted members := by
      refine (List.map_congr_left fun e he => ?_).trans (List.map_id _)
      rw [(each e (SortedTable.mem_of_mem_ofList he)).normal]
      rfl
    have order : sorted (sorted members) = sorted members :=
      SortedTable.entries_ofList_of_ascending (SortedTable.ofList members).ascending
    rw [Json.normal, normalMembers_eq_mapValues, same, order]
  numbers n hn := by
    obtain ⟨e, he, hn⟩ := mem_memberNumbers.mp hn
    exact (each e (SortedTable.mem_of_mem_ofList he)).numbers n hn

end Json

namespace Yaml

variable {s : String} {i : Int}

theorem fits_integer? (h : Word.integer? s = some (.num (.int i))) : Number.Fits i := by
  obtain ⟨k, -, h⟩ := Option.bind_eq_some_iff.mp h
  split at h
  · rename_i fits
    cases h
    exact fits
  · split at h <;> cases h

theorem fits_plainValue (h : Word.plainValue s = .num (.int i)) : Number.Fits i := by
  unfold Word.plainValue at h
  split at h
  · cases h
  · split at h
    · cases h
    · split at h
      · rename_i whole
        exact fits_integer? (whole.trans (congrArg some h))
      · split at h
        · cases h
        · split at h <;> cases h

theorem Word.fits_value {w : Word} (h : w.value = .num (.int i)) : Number.Fits i := by
  unfold value at h
  split at h
  · split at h
    · exact fits_plainValue h
    · cases h
  · split at h
    · exact fits_plainValue h
    · cases h
  · split at h <;> cases h
  · cases whole : Word.integer? w.text with
    | none =>
      rw [whole] at h
      cases h
    | some v =>
      rw [whole, Option.getD_some] at h
      exact fits_integer? (whole.trans (congrArg some h))
  · split at h <;> cases h
  · split at h <;> cases h
  · cases h
  · cases h

end Yaml

namespace Decode

/-- Every whole number in the node, the names of members aside, is one of 64 bits. -/
inductive Node.Bounded : Node → Prop
  | null : Bounded null
  | bool (b : Bool) : Bounded (bool b)
  | int {i : Int} (fits : Number.Fits i) : Bounded (num (.int i))
  | float (x : Double) : Bounded (num (.float x))
  | str (s : String) : Bounded (str s)
  | word (w : Yaml.Word) : Bounded (word w)
  | named (name : String) {n : Node} (inner : Bounded n) : Bounded (named name n)
  | seq {items : List Node} (each : ∀ n ∈ items, Bounded n) : Bounded (seq items)
  | map {members : List (Node × Node)} (each : ∀ e ∈ members, Bounded e.2) : Bounded (map members)
  | reference {n : Node} (inner : Bounded n) : Bounded (reference n)
  | void : Bounded void
  | unreadable : Bounded unreadable
  | misplaced (n : Node) : Bounded (misplaced n)
  | cut : Bounded cut

theorem Node.Bounded.body {n : Node} (bounded : n.Bounded) : n.body.Bounded := by
  cases bounded with
  | named name inner => exact inner
  | _ => constructor <;> assumption

theorem Node.bounded_ofWord (w : Yaml.Word) : (Node.ofWord w).Bounded := by
  unfold Node.ofWord
  split
  · exact .null
  · exact .bool _
  · rename_i n read
    cases n with
    | int i => exact .int (Yaml.Word.fits_value read)
    | float x => exact .float x
  · exact .str _
  · exact .unreadable

variable {σ τ α β : Type} {P : α → Prop} {Q : β → Prop}

def Gives (m : Read α) (P : α → Prop) : Prop :=
  ∀ aliases a rest, m aliases = .ok (a, rest) → P a

section Gives

variable {m : Read α}

theorem gives_pure {a : α} (h : P a) : Gives (pure a) P := by
  intro aliases b rest given
  cases given
  exact h

theorem gives_throw (cause : Failure) : Gives (throw cause) P := by
  intro aliases a rest given
  cases given

theorem Gives.bind {f : α → Read β} (first : Gives m P) (next : ∀ a, P a → Gives (f a) Q) :
    Gives (m >>= f) Q := by
  intro aliases b rest given
  cases read : m aliases with
  | error cause =>
    simp only [Bind.bind, StateT.bind, read, Except.bind] at given
    cases given
  | ok r =>
    simp only [Bind.bind, StateT.bind, read, Except.bind] at given
    exact next r.1 (first _ _ _ read) _ _ _ given

theorem gives_any (m : Read α) : Gives m fun _ => True := fun _ _ _ _ => trivial

theorem Gives.after (m : Read α) {f : α → Read β} (next : ∀ a, Gives (f a) Q) : Gives (m >>= f) Q :=
  (gives_any m).bind fun a _ => next a

theorem Gives.map (given : Gives m P) {f : α → β} (image : ∀ a, P a → Q (f a)) :
    Gives (f <$> m) Q := by
  rw [map_eq_pure_bind]
  exact given.bind fun a h => gives_pure (image a h)

theorem gives_liftM {result : Except Failure α} (good : ∀ a, result = .ok a → P a) :
    Gives (liftM result : Read α) P := by
  cases result with
  | ok a => exact gives_pure (good a rfl)
  | error cause => exact gives_throw cause

theorem gives_behind {read : Node → Read α} {n : Node} (bounded : n.Bounded)
    (reads : ∀ n, n.Bounded → Gives (read n) P) : Gives (behind read n) P := by
  unfold behind
  split
  · cases bounded with
    | reference inner => exact .after _ fun _ => reads _ inner
  · exact reads n bounded

end Gives

/-- What the reader gives has the property, where the whole numbers of the input are of 64 bits. -/
def Keeps (d : Decoder α) (P : α → Prop) : Prop := ∀ c n, n.Bounded → Gives (d c n) P

section Readers

variable {d : Decoder α}

theorem keeps_any (d : Decoder α) : Keeps d fun _ => True := fun c n _ => gives_any (d c n)

theorem gives_each {c : Context} {nodes : List Node} (reads : ∀ n ∈ nodes, Gives (d c n) P) :
    Gives (each d c nodes) fun l => ∀ a ∈ l, P a := by
  induction nodes with
  | nil => exact gives_pure (List.forall_mem_nil _)
  | cons n rest ih =>
    obtain ⟨here, later⟩ := List.forall_mem_cons.mp reads
    exact here.bind fun a ha => (ih later).bind fun l hl =>
      gives_pure (List.forall_mem_cons.mpr ⟨ha, hl⟩)

theorem Keeps.list (keeps : Keeps d P) : Keeps (list d) fun l => ∀ a ∈ l, P a := by
  intro c n bounded
  refine gives_behind bounded fun n bounded => ?_
  have inner := bounded.body
  split
  · rename_i items body
    rw [body] at inner
    cases inner with
    | seq each => exact .after _ fun c => gives_each fun n hn => keeps c n (each n hn)
  · exact gives_pure (List.forall_mem_nil _)
  · split
    · exact gives_pure (List.forall_mem_nil _)
    · exact gives_throw _
  · exact gives_throw _

/-- The values that are read are values that JSON libraries hold. -/
theorem keeps_value : Keeps value Json.Held := by
  have scalar {j : Json} (normal : j.normal = j) (plain : j.numbers = []) : j.Held :=
    ⟨normal, fun n hn => absurd (plain ▸ hn) List.not_mem_nil⟩
  have float (x : Double) : (Json.ofDouble x).Held :=
    ⟨Json.normal_ofDouble x, fun n hn => Json.held_ofDouble hn⟩
  intro c n bounded
  induction bounded generalizing c with
  | null | void | bool b | str s => exact gives_pure (scalar rfl rfl)
  | int fits => exact gives_pure (Json.held_num fits)
  | float x => exact gives_pure (float x)
  | word w =>
    rw [value]
    split
    · exact gives_pure (scalar rfl rfl)
    · exact gives_pure (scalar rfl rfl)
    · rename_i i read
      exact gives_pure (Json.held_num (Yaml.Word.fits_value read))
    · exact gives_pure (float _)
    · exact gives_pure (scalar rfl rfl)
    · exact gives_throw _
  | seq each ih =>
    rw [value]
    refine .after _ fun inner => Gives.bind ?_ fun items held => gives_pure (Json.held_arr held)
    rw [Json.valueItems_eq_each]
    exact gives_each fun n hn => ih n hn inner
  | @map members each ih =>
    rw [value]
    refine .after _ fun inner => Gives.bind (P := fun l => ∀ e ∈ l, e.2.Held) ?_ fun l held =>
      gives_pure (Json.held_sorted held)
    clear each
    induction members with
    | nil => exact gives_pure (List.forall_mem_nil _)
    | cons e rest tail =>
      obtain ⟨here, later⟩ := List.forall_mem_cons.mp ih
      exact .after _ fun name => (here inner).bind fun x hx => (tail later).bind fun l hl =>
        gives_pure (List.forall_mem_cons.mpr ⟨hx, hl⟩)
  | reference inner ih =>
    rw [value]
    exact .after _ fun _ => ih c
  | named | unreadable | misplaced | cut => exact gives_throw _

theorem asideItems_eq_each (c : Context) (nodes : List Node) :
    asideItems c nodes = each aside c nodes := by
  induction nodes with
  | nil => rfl
  | cons n rest ih => rw [asideItems, each, ih]

theorem keeps_aside : Keeps aside Node.Bounded := by
  intro c n bounded
  induction bounded generalizing c with
  | null => exact gives_pure .null
  | void => exact gives_pure .null
  | bool b => exact gives_pure (.bool b)
  | str s => exact gives_pure (.str s)
  | int fits => exact gives_pure (.int fits)
  | float x => exact gives_pure (.float x)
  | word w =>
    rw [aside]
    split
    · exact gives_throw _
    · exact gives_pure (Node.bounded_ofWord w)
  | seq each ih =>
    rw [aside]
    refine .after _ fun inner => Gives.bind ?_ fun items bounded => gives_pure (.seq bounded)
    rw [asideItems_eq_each]
    exact gives_each fun n hn => ih n hn inner
  | @map members each ih =>
    rw [aside]
    refine .after _ fun inner => Gives.bind (P := fun l => ∀ e ∈ l, e.2.Bounded) ?_ fun l bounded =>
      gives_pure (.map bounded)
    clear each
    induction members with
    | nil => exact gives_pure (List.forall_mem_nil _)
    | cons e rest tail =>
      obtain ⟨here, later⟩ := List.forall_mem_cons.mp ih
      exact .after _ fun name => (here inner).bind fun x hx => (tail later).bind fun l hl =>
        gives_pure (List.forall_mem_cons.mpr ⟨hx, hl⟩)
  | reference inner ih =>
    rw [aside]
    exact .after _ fun _ => ih c
  | named | unreadable | misplaced | cut => exact gives_throw _

end Readers

namespace Record

variable {r : Record σ α} {s : Record τ β} {I : σ → Prop} {J : τ → Prop}

/-- What is known after some members satisfies `I`, and what is made of it in the end has the property; so
has what is made of items. -/
structure Keeps (r : Record σ α) (I : σ → Prop) (P : α → Prop) : Prop where
  start : I r.start
  put : ∀ c key n known, n.Bounded → I known → Gives (r.put c key n known) I
  finish : ∀ known a, I known → r.finish known = .ok a → P a
  take : ∀ c expected i items, (∀ n ∈ items, n.Bounded) →
    Gives (r.take c expected i items) fun taken => P taken.1 ∧ ∀ n ∈ taken.2.2, n.Bounded

theorem keeps_field {f : Field α} (reads : Decode.Keeps f.read P) (absent : ∀ a ∈ f.absent, P a)
    (short : ∀ a ∈ f.short, P a) : (field f).Keeps (fun known => ∀ a ∈ known, P a) P where
  start a none := by cases none
  put c key n known bounded _ := by
    simp only [field]
    split
    · exact gives_throw _
    · refine (reads c n bounded).map fun a h b given => ?_
      cases given
      exact h
  finish known a h finished := by
    simp only [field] at finished
    split at finished
    · rename_i x given
      cases finished
      cases known with
      | none => exact absent _ given
      | some y =>
        cases given
        exact h _ rfl
    · cases finished
  take c expected i items bounded := by
    simp only [field]
    split
    · rename_i _ _ n rest
      obtain ⟨here, later⟩ := List.forall_mem_cons.mp bounded
      exact (reads c n here).bind fun a h => gives_pure ⟨h, later⟩
    · rename_i x given
      exact gives_pure ⟨short x given, bounded⟩
    · exact gives_throw _

theorem keeps_needed {d : Decoder α} (reads : Decode.Keeps d P) (key : String) :
    (field (.needed key d)).Keeps (fun known => ∀ a ∈ known, P a) P :=
  keeps_field reads nofun nofun

theorem keeps_defaulted {d : Decoder α} (reads : Decode.Keeps d P) (key : String) (value : α)
    (h : P value) : (field (.defaulted key d value)).Keeps (fun known => ∀ a ∈ known, P a) P :=
  keeps_field reads (fun _ same => Option.some.inj same ▸ h) fun _ same => Option.some.inj same ▸ h

theorem Keeps.and (left : r.Keeps I P) (right : s.Keeps J Q) :
    (r.and s).Keeps (fun known => I known.1 ∧ J known.2) fun x => P x.1 ∧ Q x.2 where
  start := ⟨left.start, right.start⟩
  put c key n known bounded h := by
    simp only [Record.and]
    split
    · exact (left.put c key n _ bounded h.1).bind fun next hn => gives_pure ⟨hn, h.2⟩
    · exact (right.put c key n _ bounded h.2).bind fun next hn => gives_pure ⟨h.1, hn⟩
  finish known x h finished := by
    cases first : r.finish known.1 with
    | error cause => simp [Record.and, first, bind, Except.bind] at finished
    | ok a =>
      cases second : s.finish known.2 with
      | error cause => simp [Record.and, first, second, bind, Except.bind] at finished
      | ok b =>
        simp only [Record.and, first, second, bind, Except.bind] at finished
        obtain rfl := Except.ok.inj finished
        exact ⟨left.finish _ _ h.1 first, right.finish _ _ h.2 second⟩
  take c expected i items bounded := by
    simp only [Record.and]
    refine (left.take c expected i items bounded).bind fun first ha => ?_
    refine (right.take c expected first.2.1 first.2.2 ha.2).bind fun second hb => ?_
    exact gives_pure ⟨⟨ha.1, hb.1⟩, hb.2⟩

theorem Keeps.map (keeps : r.Keeps I P) {f : α → β} (image : ∀ a, P a → Q (f a)) :
    (r.map f).Keeps I Q where
  start := keeps.start
  put := keeps.put
  finish known b h finished := by
    cases own : r.finish known with
    | error cause => simp [Record.map, own, Except.map] at finished
    | ok a =>
      simp only [Record.map, own, Except.map, Except.ok.injEq] at finished
      exact finished ▸ image a (keeps.finish _ _ h own)
  take c expected i items bounded := by
    simp only [Record.map]
    exact (keeps.take c expected i items bounded).bind fun taken h =>
      gives_pure ⟨image _ h.1, h.2⟩

theorem Keeps.members (keeps : r.Keeps I P) {c : Context} {l : List (Node × Node)}
    (bounded : ∀ e ∈ l, e.2.Bounded) {known : σ} (h : I known) : Gives (r.members c l known) I := by
  induction l generalizing known with
  | nil => exact gives_pure h
  | cons e rest ih =>
    obtain ⟨here, later⟩ := List.forall_mem_cons.mp bounded
    rw [Record.members]
    refine .after _ fun name => ?_
    split
    · exact (keeps.put c _ e.2 known here h).bind fun next hn => ih later hn
    · exact .after _ fun _ => ih later h

theorem Keeps.ofMembers (keeps : r.Keeps I P) {c : Context} {l : List (Node × Node)}
    (bounded : ∀ e ∈ l, e.2.Bounded) : Gives (r.ofMembers c l) P :=
  (keeps.members bounded keeps.start).bind fun known h => gives_liftM fun a => keeps.finish known a h

theorem Keeps.ofItems (keeps : r.Keeps I P) {expected : String} {c : Context} {items : List Node}
    (bounded : ∀ n ∈ items, n.Bounded) : Gives (r.ofItems expected c items) P :=
  (keeps.take c _ 0 items bounded).bind fun _ h => .after _ fun _ => gives_pure h.1

theorem Keeps.decoder (keeps : r.Keeps I P) (expected : String) :
    Decode.Keeps (r.decoder expected) P := by
  have started : Gives (liftM (r.finish r.start) : Read α) P :=
    gives_liftM fun a => keeps.finish _ a keeps.start
  intro c n bounded
  refine gives_behind bounded fun n bounded => ?_
  have inner := bounded.body
  split
  · rename_i l body
    rw [body] at inner
    cases inner with
    | map each => exact .after _ fun _ => keeps.ofMembers each
  · rename_i items body
    rw [body] at inner
    cases inner with
    | seq each =>
      split
      · exact gives_throw _
      · exact .after _ fun _ => keeps.ofItems each
  · exact started
  · split
    · exact started
    · exact gives_throw _
  · exact gives_throw _

end Record

section Tagged

variable {c : Context} {tag expected : String} {known : List String}

theorem gives_taggedMembers {l : List (Node × Node)} (bounded : ∀ e ∈ l, e.2.Bounded) {seen : Tagged}
    (held : ∀ e ∈ seen.content, e.2.Bounded) :
    Gives (taggedMembers tag known c l seen) fun last => ∀ e ∈ last.content, e.2.Bounded := by
  induction l generalizing seen with
  | nil => exact gives_pure held
  | cons e rest ih =>
    obtain ⟨here, later⟩ := List.forall_mem_cons.mp bounded
    rw [taggedMembers]
    refine .after _ fun key => ?_
    split
    · split
      · split
        · exact gives_throw _
        · exact .after _ fun _ => ih later held
      · exact (keeps_aside c e.2 here).bind fun n hn =>
          ih later (List.forall_mem_cons.mpr ⟨hn, held⟩)
    · exact (keeps_aside c e.2 here).bind fun n hn =>
        ih later (List.forall_mem_cons.mpr ⟨hn, held⟩)

theorem keeps_internallyTagged {content : String → Decoder α} (keeps : ∀ name, Keeps (content name) P) :
    Keeps (internallyTagged expected tag known content) P := by
  intro c n bounded
  refine gives_behind bounded fun n bounded => ?_
  split
  · cases bounded with
    | map each =>
      refine .after _ fun inner => ?_
      refine (gives_taggedMembers each (List.forall_mem_nil _)).bind fun seen hs => ?_
      split
      · exact gives_throw _
      · refine keeps _ _ _ (.map fun e he => hs e (List.mem_reverse.mp he))
  · cases bounded with
    | seq each =>
      refine .after _ fun inner => ?_
      split
      · exact gives_throw _
      · obtain ⟨-, later⟩ := List.forall_mem_cons.mp each
        refine .after _ fun name => ?_
        rw [asideItems_eq_each]
        exact (gives_each fun n hn => keeps_aside inner n (later n hn)).bind fun items hi =>
          keeps name _ _ (.seq hi)
  · exact gives_throw _

end Tagged

end Decode

namespace Yaml

open Decode

variable {behind : Nat → Node}

mutual

theorem Tree.bounded_node (known : ∀ number, (behind number).Bounded) (t : Tree) :
    (t.node behind).Bounded := by
  match t with
  | word w => exact .word w
  | reference number => exact .reference (known number)
  | seq name items =>
    have inner : (Node.seq (nodeItems behind items)).Bounded := .seq (bounded_nodeItems known items)
    cases name with
    | none => exact inner
    | some name => exact .named name inner
  | map name members =>
    have inner : (Node.map (nodeMembers behind members)).Bounded :=
      .map (bounded_nodeMembers known members)
    cases name with
    | none => exact inner
    | some name => exact .named name inner

theorem Tree.bounded_nodeItems (known : ∀ number, (behind number).Bounded) (items : List Tree) :
    ∀ n ∈ nodeItems behind items, n.Bounded := by
  match items with
  | [] => exact List.forall_mem_nil _
  | t :: rest => exact List.forall_mem_cons.mpr ⟨bounded_node known t, bounded_nodeItems known rest⟩

theorem Tree.bounded_nodeMembers (known : ∀ number, (behind number).Bounded)
    (members : List (Tree × Tree)) : ∀ e ∈ nodeMembers behind members, e.2.Bounded := by
  match members with
  | [] => exact List.forall_mem_nil _
  | (_, t) :: rest =>
    exact List.forall_mem_cons.mpr ⟨bounded_node known t, bounded_nodeMembers known rest⟩

end

namespace Document

theorem bounded_nodeAt {nodes : Array Node} (each : ∀ n ∈ nodes, n.Bounded) (number : Nat) :
    (nodeAt nodes number).Bounded := by
  unfold nodeAt
  by_cases inside : number < nodes.size
  · rw [Array.getD_eq_getD_getElem?, Array.getElem?_eq_getElem inside]
    exact each _ (Array.getElem_mem inside)
  · rw [Array.getD_eq_getD_getElem?, Array.getElem?_eq_none (Nat.le_of_not_lt inside)]
    exact .unreadable

theorem bounded_behind (d : Document) (levels : Nat) : ∀ n ∈ d.behind levels, n.Bounded := by
  induction levels with
  | zero => exact fun n none => absurd none (Array.not_mem_empty n)
  | succ levels ih =>
    intro n hn
    obtain ⟨t, -, rfl⟩ := Array.mem_map.mp hn
    exact t.bounded_node (bounded_nodeAt ih)

theorem bounded_node (d : Document) : d.node.Bounded :=
  d.root.bounded_node (bounded_nodeAt (d.bounded_behind d.levels))

end Document

theorem decodeBytes_of_keeps {α : Type} {d : Decoder α} {P : α → Prop} (keeps : Keeps d P)
    {bytes : ByteArray} {a : α} (read : decodeBytes d bytes = .ok a) : P a := by
  have tree {aliases : Nat} {n : Node} (bounded : n.Bounded)
      (read : decodeTree d .yaml aliases n = .ok a) : P a := by
    unfold decodeTree StateT.run' at read
    cases given : d .yaml n aliases with
    | error cause =>
      rw [given] at read
      cases read
    | ok r =>
      rw [given] at read
      obtain rfl := Except.ok.inj read
      exact keeps _ n bounded aliases r.1 r.2 given
  unfold decodeBytes at read
  split at read
  · unfold decodeText at read
    split at read
    · cases read
    · exact tree .void read
    · exact tree (Document.bounded_node _) read
  · cases read

end Yaml

end GridSweep
