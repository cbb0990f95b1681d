import GridSweep.Json.Writer
import GridSweep.Proofs.Json.Numerals
import GridSweep.Proofs.Json.Tree

/-!
The machine on the text of a value. Whatever the spacing, as long as it is blank, the machine takes
the text for the tree of the value (`Spacing.Blank.reads`), and that is the value itself when its
numbers are read back (`Machine.tree_eq_ofJson`).
-/
namespace GridSweep.Json

open GridSweep.Decode

namespace Machine

theorem Takes.head {m next : Machine} {c : Char} {cs : List Char} {stack : List Frame} {n : Node}
    (stepped : step m c = next) (takes : Takes next cs stack n) : Takes m (c :: cs) stack n := by
  intro rest delimited
  rw [List.cons_append, List.foldl_cons, stepped]
  exact takes rest delimited

theorem Takes.last {m : Machine} {c : Char} {stack : List Frame} {n : Node}
    (stepped : step m c = deliver stack n) : Takes m [c] stack n := by
  intro rest _
  rw [List.singleton_append, List.foldl_cons, stepped]

theorem Takes.run {m next : Machine} {cs ds : List Char} {stack : List Frame} {n : Node}
    (ran : cs.foldl step m = next) (takes : Takes next ds stack n) : Takes m (cs ++ ds) stack n := by
  intro rest delimited
  rw [List.append_assoc, List.foldl_append, ran]
  exact takes rest delimited

theorem Takes.followedBy {m : Machine} {cs ds : List Char} {stack outer : List Frame} {n k : Node}
    (first : Takes m cs stack n) (begins : ∀ rest, Delimited (ds ++ rest))
    (second : Takes (deliver stack n) ds outer k) : Takes m (cs ++ ds) outer k := by
  intro rest delimited
  rw [List.append_assoc, first _ (begins rest)]
  exact second rest delimited

def Waits (m : Machine) : Prop := ∀ c, isSpace c = true → step m c = m

theorem waits_value (stack : List Frame) : Waits ⟨stack, .value⟩ := fun _ blank => if_pos blank
theorem waits_item (stack : List Frame) : Waits ⟨stack, .item⟩ := fun _ blank => if_pos blank
theorem waits_member (stack : List Frame) : Waits ⟨stack, .member⟩ := fun _ blank => if_pos blank
theorem waits_name (stack : List Frame) : Waits ⟨stack, .name⟩ := fun _ blank => if_pos blank
theorem waits_after (stack : List Frame) : Waits ⟨stack, .after⟩ := fun _ blank => if_pos blank

theorem Waits.foldl {m : Machine} (waits : Waits m) {blanks : List Char}
    (blank : ∀ c ∈ blanks, isSpace c = true) : blanks.foldl step m = m := by
  induction blanks with
  | nil => rfl
  | cons c rest ih =>
    rw [List.foldl_cons, waits c (blank c List.mem_cons_self)]
    exact ih fun d hd => blank d (List.mem_cons_of_mem _ hd)

theorem hexDigits_of_control {n : Nat} (h : n < 0x20) :
    hexDigit? (hexDigit (n / 16)) = some (n / 16) ∧
      hexDigit? (hexDigit (n % 16)) = some (n % 16) := by
  have all : ∀ n < 0x20, hexDigit? (hexDigit (n / 16)) = some (n / 16) ∧
      hexDigit? (hexDigit (n % 16)) = some (n % 16) := by decide
  exact all n h

def quoting (stack : List Frame) (text : List Char) : Machine :=
  ⟨stack, .quote ⟨text, none, false⟩ .outside⟩

theorem foldl_shortEscape {c short : Char} (h : shortEscape c = some short) (stack : List Frame)
    (text : List Char) : ['\\', short].foldl step (quoting stack text) = quoting stack (c :: text) := by
  unfold shortEscape at h
  simp only [beq_iff_eq] at h
  repeat' split at h
  all_goals first
    | (subst_vars; cases h; rfl)
    | cases h

theorem foldl_codeEscape {c : Char} (h : c.toNat < 0x20) (stack : List Frame) (text : List Char) :
    ['\\', 'u', '0', '0', hexDigit (c.toNat / 16), hexDigit (c.toNat % 16)].foldl step
      (quoting stack text) = quoting stack (c :: text) := by
  obtain ⟨high, low⟩ := hexDigits_of_control h
  have zero : hexDigit? '0' = some 0 := rfl
  have whole : ((0 * 16 + 0) * 16 + c.toNat / 16) * 16 + c.toNat % 16 = c.toNat := by omega
  have noHigh : isHighSurrogate c.toNat = false := by
    simp only [isHighSurrogate, Bool.and_eq_false_iff, decide_eq_false_iff_not]
    omega
  have noLow : isLowSurrogate c.toNat = false := by
    simp only [isLowSurrogate, Bool.and_eq_false_iff, decide_eq_false_iff_not]
    omega
  have unit : Quote.addUnit ⟨text, none, false⟩ c.toNat = ⟨c :: text, none, false⟩ := by
    simp only [Quote.addUnit, noHigh, noLow, Bool.false_eq_true, if_false, Char.ofNat_toNat]
  have begun : ['\\', 'u'].foldl step (quoting stack text) =
      ⟨stack, .quote ⟨text, none, false⟩ (.code 3 0)⟩ := rfl
  have coded : ['0', '0', hexDigit (c.toNat / 16), hexDigit (c.toNat % 16)].foldl step
      ⟨stack, .quote ⟨text, none, false⟩ (.code 3 0)⟩ = quoting stack (c :: text) := by
    simp only [List.foldl_cons, List.foldl_nil, step, inText, zero, high, low, whole, unit]
    rfl
  exact (List.foldl_append (l := ['\\', 'u'])).trans (begun ▸ coded)

theorem step_verbatim {c : Char} (none : shortEscape c = none) (h : ¬ c.toNat < 0x20)
    (stack : List Frame) (text : List Char) :
    step (quoting stack text) c = quoting stack (c :: text) := by
  have noQuote : c ≠ '"' := by
    rintro rfl
    cases none
  have noSlash : c ≠ '\\' := by
    rintro rfl
    cases none
  have verbatim : isVerbatim c = true := by
    simp only [isVerbatim, Bool.and_eq_true, bne_iff_ne, decide_eq_true_eq]
    exact ⟨⟨noQuote, noSlash⟩, Nat.le_of_not_lt h⟩
  simp only [quoting, step, inText, verbatim, if_true]
  rfl

theorem foldl_escape (c : Char) (stack : List Frame) (text : List Char) :
    (escape c).foldl step (quoting stack text) = quoting stack (c :: text) := by
  unfold escape
  split
  · rename_i short h
    exact foldl_shortEscape h stack text
  · rename_i none
    split
    · rename_i control
      exact foldl_codeEscape control stack text
    · rename_i visible
      exact step_verbatim none visible stack text

theorem foldl_escaped (cs : List Char) (stack : List Frame) (text : List Char) :
    (cs.flatMap escape).foldl step (quoting stack text) = quoting stack (cs.reverse ++ text) := by
  induction cs generalizing text with
  | nil => rfl
  | cons c rest ih =>
    rw [List.flatMap_cons, List.foldl_append, foldl_escape, ih, List.reverse_cons,
      List.append_assoc, List.singleton_append]

theorem foldl_quoted {m : Machine} {stack : List Frame} (opens : step m '"' = quoting stack [])
    (s : String) : (quoted s).foldl step m = deliverText stack (.str s) := by
  rw [quoted, List.cons_append, List.foldl_cons, opens, List.foldl_append, foldl_escaped]
  have read : Quote.node ⟨s.toList.reverse ++ [], none, false⟩ = .str s := by
    simp [Quote.node]
  show deliverText stack (Quote.node ⟨s.toList.reverse ++ [], none, false⟩) = _
  rw [read]

/-- A value is due next: a text delivered here is a value and not the name of a member. -/
def ValueDue (stack : List Frame) : Prop := ∀ n, deliverText stack n = deliver stack n

mutual

/-- The tree of the text of a value. A number is what its numeral denotes, if it denotes one. -/
def tree : Json → Node
  | null => .null
  | bool b => .bool b
  | num n => numeralNode n.numeral
  | str s => .str s
  | arr items => .seq (itemTrees items)
  | obj members => .map (memberTrees members)

def itemTrees : List Json → List Node
  | [] => []
  | x :: rest => tree x :: itemTrees rest

def memberTrees : List (String × Json) → List (Node × Node)
  | [] => []
  | (name, x) :: rest => (.str name, tree x) :: memberTrees rest

end

theorem itemTrees_eq_map (items : List Json) : itemTrees items = items.map tree := by
  induction items with
  | nil => rfl
  | cons x rest ih => rw [itemTrees, ih, List.map_cons]

theorem memberTrees_eq_map (members : List (String × Json)) :
    memberTrees members = members.map fun e => (.str e.1, tree e.2) := by
  induction members with
  | nil => rfl
  | cons e rest ih =>
    obtain ⟨name, x⟩ := e
    rw [memberTrees, ih, List.map_cons]

theorem tree_eq_ofJson (j : Json) (back : ∀ n ∈ j.numbers, n.ReadsBack) : tree j = .ofJson j := by
  induction j using tree_induction with
  | null | bool b | str s => rfl
  | num n =>
    rw [tree, numeralNode, (back n List.mem_cons_self).number?_numeral]
    rfl
  | arr items ih =>
    have each : ∀ x ∈ items, tree x = .ofJson x := fun x hx =>
      ih x hx fun n hn => back n (mem_itemNumbers.mpr ⟨x, hx, hn⟩)
    rw [tree, Node.ofJson, itemTrees_eq_map, Node.ofItems_eq_map, List.map_congr_left each]
  | obj members ih =>
    have each : ∀ e ∈ members, tree e.2 = .ofJson e.2 := fun e he =>
      ih e he fun n hn => back n (mem_memberNumbers.mpr ⟨e, he, hn⟩)
    rw [tree, Node.ofJson, memberTrees_eq_map, Node.ofMembers_eq_map]
    exact congrArg Node.map (List.map_congr_left fun e he => by rw [each e he])

/-- The machine takes the text of the value for its tree wherever a value is due. -/
def Reads (sp : Spacing) (j : Json) : Prop :=
  ∀ stack, ValueDue stack → Takes ⟨stack, .value⟩ (chars sp j) stack (tree j)

theorem foldl_literal {c d : Char} {rest : List Char} {n : Node} {stack : List Frame}
    (opens : step ⟨stack, .value⟩ c = ⟨stack, .literal (d :: rest) n⟩) :
    (c :: d :: rest).foldl step ⟨stack, .value⟩ = deliver stack n := by
  have each : ∀ (l : List Char) (d : Char),
      (d :: l).foldl step ⟨stack, .literal (d :: l) n⟩ = deliver stack n := by
    intro l
    induction l with
    | nil =>
      intro d
      simp [step]
    | cons e l ih =>
      intro d
      rw [List.foldl_cons, step]
      simp only [beq_self_eq_true, if_true]
      exact ih e
  rw [List.foldl_cons, opens]
  exact each rest d

theorem takes_literal {c d : Char} {rest : List Char} {n : Node} {stack : List Frame}
    (opens : step ⟨stack, .value⟩ c = ⟨stack, .literal (d :: rest) n⟩) :
    Takes ⟨stack, .value⟩ (c :: d :: rest) stack n := by
  intro more _
  rw [List.foldl_append, foldl_literal opens]

/-- The text of a value begins with a character that opens it, also where an array may end. -/
theorem chars_head (sp : Spacing) (j : Json) (stack : List Frame) :
    ∃ c rest, chars sp j = c :: rest ∧ step ⟨stack, .item⟩ c = step ⟨stack, .value⟩ c := by
  cases j with
  | null => exact ⟨'n', _, rfl, rfl⟩
  | bool b =>
    cases b with
    | false => exact ⟨'f', _, rfl, rfl⟩
    | true => exact ⟨'t', _, rfl, rfl⟩
  | str s => exact ⟨'"', _, rfl, rfl⟩
  | arr items => exact ⟨'[', _, rfl, rfl⟩
  | obj members => exact ⟨'\x7b', _, rfl, rfl⟩
  | num n =>
    have proper := n.proper_numeral
    rw [chars, n.text_eq_chars, Numeral.chars, Numeral.unsigned]
    cases n.numeral.negative with
    | true => exact ⟨'-', _, rfl, rfl⟩
    | false =>
      obtain ⟨first, rest, whole⟩ : ∃ first rest, n.numeral.whole = first :: rest := by
        rcases proper.whole with zero | ⟨first, rest, whole, _⟩
        · exact ⟨0, [], zero⟩
        · exact ⟨first, rest, whole⟩
      have small : first < 10 := proper.wholeDigits first (whole ▸ List.mem_cons_self)
      refine ⟨Nat.digitChar first, Numeral.digitChars rest ++
        (Numeral.fractionChars n.numeral.fraction ++ Numeral.exponentChars n.numeral.exponent),
        by rw [whole]; rfl, ?_⟩
      have noBracket : (Nat.digitChar first == ']') = false := by
        have all : ∀ d < 10, (Nat.digitChar d == ']') = false := by decide
        exact all first small
      simp only [step, not_isSpace_digitChar small, noBracket, Bool.false_eq_true, if_false]

theorem Reads.item {sp : Spacing} {j : Json} {stack : List Frame} (reads : Reads sp j)
    (due : ValueDue stack) : Takes ⟨stack, .item⟩ (chars sp j) stack (tree j) := by
  obtain ⟨c, rest, shape, same⟩ := chars_head sp j stack
  have taken := reads stack due
  rw [shape] at taken ⊢
  intro more delimited
  rw [List.cons_append, List.foldl_cons, same]
  exact taken more delimited

theorem reads_num (n : Number) (sp : Spacing) : Reads sp (num n) := by
  intro stack _
  rw [chars, n.text_eq_chars, tree]
  exact takes_numeral (numeralText_chars n.proper_numeral) stack

theorem reads_str (s : String) (sp : Spacing) : Reads sp (str s) := by
  intro stack due rest _
  rw [chars, List.foldl_append, foldl_quoted (m := ⟨stack, .value⟩) rfl, due, tree]

end Machine

open Machine

namespace Spacing

/-- Only blanks are added between the parts, and before the value of a member. -/
structure Blank (sp : Spacing) : Prop where
  gap : ∀ c ∈ sp.gap.toList, isSpace c = true
  indent : ∀ c ∈ sp.indent.toList, isSpace c = true
  colon : ∃ blanks, sp.colon.toList = ':' :: blanks ∧ ∀ c ∈ blanks, isSpace c = true

theorem blank_compact : Blank compact := by
  refine ⟨?_, ?_, [], rfl, ?_⟩
  all_goals
    intro c hc
    cases hc

theorem blank_pretty : Blank pretty :=
  ⟨List.all_eq_true.mp rfl, List.all_eq_true.mp rfl, [' '], rfl, List.all_eq_true.mp rfl⟩

theorem Blank.inner {sp : Spacing} (blank : sp.Blank) : sp.inner.Blank := by
  refine ⟨?_, blank.indent, blank.colon⟩
  intro c hc
  rw [Spacing.inner, String.toList_append, List.mem_append] at hc
  rcases hc with hc | hc
  · exact blank.gap c hc
  · exact blank.indent c hc

/-- What follows a part of an array or object may follow a value. -/
theorem Blank.delimited_further {sp : Spacing} (blank : sp.Blank) (parts : List (List Char))
    {closing : Char} (closes : IsDelimiter closing) (rest : List Char) :
    Delimited (sp.further parts ++ [closing] ++ rest) := by
  cases parts with
  | cons part more => exact delimited_cons (.inr (.inl rfl))
  | nil =>
    rw [further]
    cases gap : sp.gap.toList with
    | nil => exact delimited_cons closes
    | cons c blanks => exact delimited_cons (.inl (blank.gap c (gap ▸ List.mem_cons_self)))

variable {sp : Spacing} {stack : List Frame}

theorem Blank.takes_furtherItems (blank : sp.Blank) {items : List Json}
    (reads : ∀ x ∈ items, Reads sp.inner x) (done : List Node) :
    Takes ⟨.items done :: stack, .after⟩ (sp.further (itemChars sp.inner items) ++ [']']) stack
      (.seq (done.reverse ++ itemTrees items)) := by
  induction items generalizing done with
  | nil =>
    rw [itemChars, further, itemTrees, List.append_nil]
    exact .run ((waits_after _).foldl blank.gap) (.last rfl)
  | cons x rest ih =>
    have later := ih (fun y hy => reads y (List.mem_cons_of_mem _ hy)) (tree x :: done)
    rw [List.reverse_cons, List.append_assoc, List.singleton_append] at later
    rw [itemChars, further, List.append_assoc, List.append_assoc, List.cons_append]
    refine @Takes.head _ ⟨.items done :: stack, .value⟩ _ _ _ _ rfl ?_
    refine .run ((waits_value _).foldl blank.inner.gap) ?_
    exact .followedBy (reads x List.mem_cons_self _ fun _ => rfl)
      (blank.delimited_further _ (.inr (.inr (.inl rfl)))) later

theorem Blank.takes_items (blank : sp.Blank) {items : List Json}
    (reads : ∀ x ∈ items, Reads sp.inner x) :
    Takes ⟨.items [] :: stack, .item⟩ (sp.parts (itemChars sp.inner items) ++ [']']) stack
      (.seq (itemTrees items)) := by
  cases items with
  | nil => exact .last rfl
  | cons x rest =>
    have later := @Blank.takes_furtherItems sp stack blank rest
      (fun y hy => reads y (List.mem_cons_of_mem _ hy)) [tree x]
    rw [itemChars, parts, List.append_assoc, List.append_assoc]
    refine .run ((waits_item _).foldl blank.inner.gap) ?_
    exact .followedBy ((reads x List.mem_cons_self).item fun _ => rfl)
      (blank.delimited_further _ (.inr (.inr (.inl rfl)))) later

theorem Blank.takes_member (blank : sp.Blank) {m : Machine} {done : List (Node × Node)}
    (opens : step m '"' = quoting (.members done none :: stack) []) {name : String} {x : Json}
    (reads : Reads sp x) :
    Takes m (quoted name ++ sp.colon.toList ++ chars sp x)
      (.members done (some (.str name)) :: stack) (tree x) := by
  obtain ⟨blanks, colon, blank⟩ := blank.colon
  have value : Takes ⟨.members done (some (.str name)) :: stack, .value⟩ (blanks ++ chars sp x)
      (.members done (some (.str name)) :: stack) (tree x) :=
    .run ((waits_value _).foldl blank) (reads _ fun _ => rfl)
  rw [colon, List.append_assoc, List.cons_append]
  exact .run (foldl_quoted opens name) (.head rfl value)

theorem Blank.takes_furtherMembers (blank : sp.Blank) {members : List (String × Json)}
    (reads : ∀ e ∈ members, Reads sp.inner e.2) (done : List (Node × Node)) :
    Takes ⟨.members done none :: stack, .after⟩
      (sp.further (memberChars sp.inner members) ++ ['\x7d']) stack
      (.map (done.reverse ++ memberTrees members)) := by
  induction members generalizing done with
  | nil =>
    rw [memberChars, further, memberTrees, List.append_nil]
    exact .run ((waits_after _).foldl blank.gap) (.last rfl)
  | cons e rest ih =>
    obtain ⟨name, x⟩ := e
    have later := ih (fun f hf => reads f (List.mem_cons_of_mem _ hf))
      ((Node.str name, tree x) :: done)
    rw [List.reverse_cons, List.append_assoc, List.singleton_append] at later
    rw [memberChars, further, List.append_assoc, List.append_assoc, List.cons_append]
    refine @Takes.head _ ⟨.members done none :: stack, .name⟩ _ _ _ _ rfl ?_
    refine .run ((waits_name _).foldl blank.inner.gap) ?_
    exact .followedBy (blank.inner.takes_member rfl (reads (name, x) List.mem_cons_self))
      (blank.delimited_further _ (.inr (.inr (.inr rfl)))) later

theorem Blank.takes_members (blank : sp.Blank) {members : List (String × Json)}
    (reads : ∀ e ∈ members, Reads sp.inner e.2) :
    Takes ⟨.members [] none :: stack, .member⟩
      (sp.parts (memberChars sp.inner members) ++ ['\x7d']) stack
      (.map (memberTrees members)) := by
  cases members with
  | nil => exact .last rfl
  | cons e rest =>
    obtain ⟨name, x⟩ := e
    have later := @Blank.takes_furtherMembers sp stack blank rest
      (fun f hf => reads f (List.mem_cons_of_mem _ hf)) [(Node.str name, tree x)]
    rw [memberChars, parts, List.append_assoc, List.append_assoc]
    refine .run ((waits_member _).foldl blank.inner.gap) ?_
    exact .followedBy (blank.inner.takes_member rfl (reads (name, x) List.mem_cons_self))
      (blank.delimited_further _ (.inr (.inr (.inr rfl)))) later

/-- Whatever the blanks between its parts, the machine takes the text of a value for its tree. -/
theorem Blank.reads (j : Json) : ∀ sp : Spacing, sp.Blank → Reads sp j := by
  induction j using tree_induction with
  | null => exact fun sp _ stack _ => takes_literal rfl
  | bool b =>
    cases b with
    | false => exact fun sp _ stack _ => takes_literal rfl
    | true => exact fun sp _ stack _ => takes_literal rfl
  | num n => exact fun sp _ => reads_num n sp
  | str s => exact fun sp _ => reads_str s sp
  | arr items ih =>
    intro sp blank stack _
    have parts : ∀ x ∈ items, Reads sp.inner x := fun x hx => ih x hx sp.inner blank.inner
    rw [chars, List.cons_append, tree]
    exact .head rfl (blank.takes_items parts)
  | obj members ih =>
    intro sp blank stack _
    have parts : ∀ e ∈ members, Reads sp.inner e.2 := fun e he => ih e he sp.inner blank.inner
    rw [chars, List.cons_append, tree]
    exact .head rfl (blank.takes_members parts)

end Spacing

theorem ofText_of_chars {sp : Spacing} (blank : sp.Blank) {s : String} {j : Json}
    (spelled : s.toList = chars sp j) : Document.ofText s = ⟨tree j, true⟩ := by
  have reads := Spacing.Blank.reads j sp blank [] fun _ => rfl
  rw [← spelled] at reads
  exact reads.ofText

theorem ofText_pretty_tree (j : Json) : Document.ofText j.pretty = ⟨tree j, true⟩ :=
  ofText_of_chars Spacing.blank_pretty (toList_pretty j)

theorem ofText_compact {j : Json} (back : ∀ n ∈ j.numbers, n.ReadsBack) :
    Document.ofText j.compact = ⟨.ofJson j, true⟩ := by
  rw [ofText_of_chars Spacing.blank_compact (toList_compact j), tree_eq_ofJson j back]

theorem ofText_pretty {j : Json} (back : ∀ n ∈ j.numbers, n.ReadsBack) :
    Document.ofText j.pretty = ⟨.ofJson j, true⟩ := by
  rw [ofText_pretty_tree, tree_eq_ofJson j back]

theorem readsBack_of_held {j : Json} (held : ∀ n ∈ j.numbers, n.Held)
    (floats : ∀ x, Number.float x ∈ j.numbers → x.ReadsBack) : ∀ n ∈ j.numbers, n.ReadsBack := by
  intro n hn
  cases n with
  | int i => exact Number.readsBack_int (held _ hn)
  | float x => exact floats x hn

end GridSweep.Json
