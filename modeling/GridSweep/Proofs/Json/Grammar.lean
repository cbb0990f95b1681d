import GridSweep.Proofs.Json.Reading

/-!
The grammar of JSON texts. A text is derived from the tree that it spells (`Spells`): parts of arrays and
objects one after the other, strings from characters and escapes, numerals from their digits, with blanks
wherever they may stand. The machine takes a text that the grammar spells for the tree that it spells
(`Spells.ofText`).
-/
namespace GridSweep.Json

open GridSweep.Decode Machine

def AllBlank (cs : List Char) : Prop := ∀ c ∈ cs, isSpace c = true

theorem allBlank_nil : AllBlank [] := fun _ hc => absurd hc List.not_mem_nil

/-- A part of a string: a character, or a 16-bit unit that is written as a code. -/
inductive Piece where
  | char (c : Char)
  | unit (n : Nat)

namespace Piece

def code? (digits : List Char) : Option Nat :=
  digits.foldlM (fun n c => (hexDigit? c).map (n * 16 + ·)) 0

/-- The characters that pieces stand for. Two surrogates make one character, and none stands alone. -/
def meaning : List Piece → Option (List Char)
  | [] => some []
  | char c :: rest => (meaning rest).map (c :: ·)
  | unit n :: rest =>
    if isHighSurrogate n then
      match rest with
      | unit m :: rest =>
        if isLowSurrogate m then (meaning rest).map (ofSurrogates n m :: ·) else none
      | _ => none
    else if isLowSurrogate n then none
    else (meaning rest).map (Char.ofNat n :: ·)

theorem meaning_unit {n : Nat} (high : ¬ isHighSurrogate n = true) (rest : List Piece) :
    meaning (unit n :: rest) =
      if isLowSurrogate n then none else (meaning rest).map (Char.ofNat n :: ·) := by
  rw [meaning.eq_def]
  simp only [if_neg high]

/-- The tree of a string; it cannot be read if its pieces stand for nothing. -/
def node (pieces : List Piece) : Node :=
  match meaning pieces with
  | some cs => .str (String.ofList cs)
  | none => .unreadable

end Piece

inductive Pieces : List Piece → List Char → Prop where
  | nothing : Pieces [] []
  | verbatim {l : List Piece} {cs : List Char} {c : Char} (before : Pieces l cs)
      (plain : isVerbatim c = true) : Pieces (l ++ [.char c]) (cs ++ [c])
  | escape {l : List Piece} {cs : List Char} {c d : Char} (before : Pieces l cs)
      (escaped : escaped? c = some d) : Pieces (l ++ [.char d]) (cs ++ ['\\', c])
  | code {l : List Piece} {cs digits : List Char} {n : Nat} (before : Pieces l cs)
      (four : digits.length = 4) (code : Piece.code? digits = some n) :
      Pieces (l ++ [.unit n]) (cs ++ '\\' :: 'u' :: digits)

inductive Part where
  | value (n : Node)
  /-- A value with the blanks around it. -/
  | item (n : Node)
  | items (l : List Node)
  | member (e : Node × Node)
  | members (l : List (Node × Node))

inductive Spells : Part → List Char → Prop where
  | null : Spells (.value .null) ['n', 'u', 'l', 'l']
  | truth : Spells (.value (.bool true)) ['t', 'r', 'u', 'e']
  | falsity : Spells (.value (.bool false)) ['f', 'a', 'l', 's', 'e']
  | numeral {n : Numeral} {cs : List Char} (text : NumeralText n cs) :
      Spells (.value (numeralNode n)) cs
  | string {l : List Piece} {cs : List Char} (text : Pieces l cs) :
      Spells (.value (Piece.node l)) ('"' :: (cs ++ ['"']))
  | emptyArray {blanks : List Char} (blank : AllBlank blanks) :
      Spells (.value (.seq [])) ('[' :: (blanks ++ [']']))
  | array {l : List Node} {cs : List Char} (items : Spells (.items l) cs) :
      Spells (.value (.seq l)) ('[' :: (cs ++ [']']))
  | emptyObject {blanks : List Char} (blank : AllBlank blanks) :
      Spells (.value (.map [])) ('\x7b' :: (blanks ++ ['\x7d']))
  | object {l : List (Node × Node)} {cs : List Char} (members : Spells (.members l) cs) :
      Spells (.value (.map l)) ('\x7b' :: (cs ++ ['\x7d']))
  | item {n : Node} {before cs after : List Char} (blank : AllBlank before)
      (value : Spells (.value n) cs) (blank' : AllBlank after) :
      Spells (.item n) (before ++ (cs ++ after))
  | firstItem {n : Node} {cs : List Char} (item : Spells (.item n) cs) : Spells (.items [n]) cs
  | nextItem {l : List Node} {n : Node} {cs ds : List Char} (items : Spells (.items l) cs)
      (item : Spells (.item n) ds) : Spells (.items (l ++ [n])) (cs ++ ',' :: ds)
  | member {l : List Piece} {n : Node} {before name after ds : List Char} (blank : AllBlank before)
      (text : Pieces l name) (blank' : AllBlank after) (item : Spells (.item n) ds) :
      Spells (.member (Piece.node l, n)) (before ++ '"' :: (name ++ '"' :: (after ++ ':' :: ds)))
  | firstMember {e : Node × Node} {cs : List Char} (member : Spells (.member e) cs) :
      Spells (.members [e]) cs
  | nextMember {l : List (Node × Node)} {e : Node × Node} {cs ds : List Char}
      (members : Spells (.members l) cs) (member : Spells (.member e) ds) :
      Spells (.members (l ++ [e])) (cs ++ ',' :: ds)

namespace Quote

def add (q : Quote) : Piece → Quote
  | .char c => q.addChar c
  | .unit n => q.addUnit n

def ofPieces (l : List Piece) : Quote := l.foldl add empty

theorem ofPieces_concat (l : List Piece) (p : Piece) : ofPieces (l ++ [p]) = (ofPieces l).add p := by
  simp [ofPieces]

theorem spoiled_foldl (l : List Piece) {q : Quote} (spoiled : q.spoiled = true) :
    (l.foldl add q).node = .unreadable := by
  induction l generalizing q with
  | nil => simp [node, spoiled]
  | cons p rest ih =>
    apply ih
    obtain ⟨text, half, _⟩ := q
    cases p with
    | char c => cases half <;> simp_all [add, addChar]
    | unit n =>
      cases half with
      | none =>
        simp only [add, addUnit]
        split
        · exact spoiled
        · split <;> first | rfl | exact spoiled
      | some high =>
        simp only [add, addUnit]
        split <;> first | rfl | exact spoiled

/-- What the pieces after a string with nothing amiss make of it. -/
def continued (text : List Char) : Option (List Char) → Node
  | some cs => .str (String.ofList (text.reverse ++ cs))
  | none => .unreadable

theorem continued_cons (c : Char) (text : List Char) (cs : Option (List Char)) :
    continued (c :: text) cs = continued text (cs.map (c :: ·)) := by
  cases cs <;> simp [continued]

theorem node_foldl (l : List Piece) (text : List Char) :
    (l.foldl add ⟨text, none, false⟩).node = continued text (Piece.meaning l) := by
  induction l using Piece.meaning.induct generalizing text with
  | case1 => simp [node, continued, Piece.meaning]
  | case2 c rest ih =>
    rw [Piece.meaning, ← continued_cons, ← ih]
    rfl
  | case3 n high m rest low ih =>
    have pair : (add ⟨text, none, false⟩ (.unit n)).add (.unit m) =
        ⟨ofSurrogates n m :: text, none, false⟩ := by
      simp [add, addUnit, high, low]
    simp [pair, ih, Piece.meaning, high, low, continued_cons]
  | case4 n high m rest low =>
    have lone : ((add ⟨text, none, false⟩ (.unit n)).add (.unit m)).spoiled = true := by
      simp [add, addUnit, high, low]
    simp [spoiled_foldl rest lone, Piece.meaning, high, low, continued]
  | case5 n rest high other =>
    cases rest with
    | nil => simp [Piece.meaning, high, continued, add, addUnit, node]
    | cons p rest =>
      cases p with
      | unit m => exact absurd rfl (other m rest)
      | char c =>
        have lone : ((add ⟨text, none, false⟩ (.unit n)).add (.char c)).spoiled = true := by
          simp [add, addUnit, addChar, high]
        simp [spoiled_foldl rest lone, Piece.meaning, high, continued]
  | case6 n rest high low =>
    have lone : (add ⟨text, none, false⟩ (.unit n)).spoiled = true := by
      simp [add, addUnit, high, low]
    simp [spoiled_foldl rest lone, Piece.meaning_unit high, low, continued]
  | case7 n rest high low ih =>
    have plain : add ⟨text, none, false⟩ (.unit n) = ⟨Char.ofNat n :: text, none, false⟩ := by
      simp [add, addUnit, high, low]
    simp [plain, ih, Piece.meaning_unit high, low, continued_cons]

theorem node_ofPieces (l : List Piece) : (ofPieces l).node = Piece.node l := by
  rw [ofPieces, empty, node_foldl]
  rfl

end Quote

namespace Machine

/-- Whatever may follow them, the characters lead from one machine to another. -/
def Leads (m : Machine) (cs : List Char) (next : Machine) : Prop :=
  ∀ rest, Delimited rest → Document.ofMachine ((cs ++ rest).foldl step m) =
    Document.ofMachine (rest.foldl step next)

section Leads

variable {m next last : Machine} {cs ds : List Char}

theorem leads_of_foldl (ran : cs.foldl step m = next) : Leads m cs next := by
  intro rest _
  rw [List.foldl_append, ran]

theorem Leads.followedBy (first : Leads m cs next)
    (begins : ∀ rest, Delimited rest → Delimited (ds ++ rest)) (second : Leads next ds last) :
    Leads m (cs ++ ds) last := by
  intro rest delimited
  rw [List.append_assoc, first _ (begins rest delimited)]
  exact second rest delimited

theorem Leads.run (ran : cs.foldl step m = next) (leads : Leads next ds last) :
    Leads m (cs ++ ds) last := by
  intro rest delimited
  rw [List.append_assoc, List.foldl_append, ran]
  exact leads rest delimited

theorem Leads.head {c : Char} (stepped : step m c = next) (leads : Leads next cs last) :
    Leads m (c :: cs) last := by
  have ran : [c].foldl step m = next := stepped
  exact .run ran leads

theorem delimited_blanks {blanks : List Char} (blank : AllBlank blanks) {rest : List Char}
    (delimited : Delimited rest) : Delimited (blanks ++ rest) := by
  cases blanks with
  | nil => exact delimited
  | cons c more => exact delimited_cons (.inl (blank c List.mem_cons_self))

theorem waits_deliver (stack : List Frame) (n : Node) : Waits (deliver stack n) := by
  intro c blank
  match stack with
  | [] => simp [deliver, step, afterValue, blank]
  | .items done :: rest => exact waits_after _ c blank
  | .members done key :: rest => exact waits_after _ c blank
  | .misplaced :: rest => rfl

end Leads

section Leaves

variable {stack : List Frame}

theorem foldl_code {q : Quote} {digits : List Char} {left value n : Nat}
    (length : digits.length = left + 1)
    (code : digits.foldlM (fun n c => (hexDigit? c).map (n * 16 + ·)) value = some n) :
    digits.foldl step ⟨stack, .quote q (.code left value)⟩ =
      ⟨stack, .quote (q.addUnit n) .outside⟩ := by
  induction digits generalizing left value with
  | nil => cases length
  | cons c rest ih =>
    rw [List.foldlM_cons] at code
    cases digit : hexDigit? c with
    | none => simp [digit] at code
    | some d =>
      have code : rest.foldlM (fun n c => (hexDigit? c).map (n * 16 + ·)) (value * 16 + d) = some n := by
        simpa [digit] using code
      cases left with
      | zero =>
        obtain rfl : rest = [] := by simpa using length
        obtain rfl : value * 16 + d = n := by simpa using code
        simp [step, inText, digit]
      | succ left =>
        have stepped : step ⟨stack, .quote q (.code (left + 1) value)⟩ c =
            ⟨stack, .quote q (.code left (value * 16 + d))⟩ := by
          simp [step, inText, digit]
        rw [List.foldl_cons, stepped]
        exact ih (by simpa using length) code

theorem foldl_pieces {l : List Piece} {cs : List Char} (pieces : Pieces l cs) :
    cs.foldl step ⟨stack, .quote .empty .outside⟩ =
      ⟨stack, .quote (Quote.ofPieces l) .outside⟩ := by
  induction pieces with
  | nothing => rfl
  | verbatim before plain ih =>
    rw [List.foldl_append, ih, Quote.ofPieces_concat]
    simp [step, inText, plain, Quote.add]
  | @escape l cs c d before escaped ih =>
    have slash : step ⟨stack, .quote (Quote.ofPieces l) .outside⟩ '\\' =
        ⟨stack, .quote (Quote.ofPieces l) .begun⟩ := rfl
    rw [List.foldl_append, ih, Quote.ofPieces_concat, List.foldl_cons, slash]
    simp [step, inText, escaped, Quote.add]
  | @code l cs digits n before four code ih =>
    have opened : ['\\', 'u'].foldl step ⟨stack, .quote (Quote.ofPieces l) .outside⟩ =
        ⟨stack, .quote (Quote.ofPieces l) (.code 3 0)⟩ := rfl
    have run : cs ++ '\\' :: 'u' :: digits = cs ++ (['\\', 'u'] ++ digits) := rfl
    rw [run, List.foldl_append, ih, List.foldl_append, opened, Quote.ofPieces_concat]
    exact foldl_code four code

/-- At its closing quote a string is delivered, as the name of a member or as a value. -/
theorem foldl_string {m : Machine} {l : List Piece} {cs : List Char}
    (opens : step m '"' = ⟨stack, .quote .empty .outside⟩) (pieces : Pieces l cs) :
    ('"' :: (cs ++ ['"'])).foldl step m = deliverText stack (Piece.node l) := by
  rw [List.foldl_cons, opens, List.foldl_append, foldl_pieces pieces, ← Quote.node_ofPieces]
  rfl

end Leaves

section Spells

variable {stack : List Frame} {cs ds : List Char} {n : Node}

/-- The text begins like a value, also where an array may end instead. -/
def Opens (cs : List Char) : Prop := ∃ c rest, cs = c :: rest ∧ isSpace c = false ∧ c ≠ ']'

theorem opens_cons {c : Char} (h : isSpace c = false ∧ c ≠ ']') (cs : List Char) : Opens (c :: cs) :=
  ⟨c, cs, rfl, h⟩

theorem opens_numeral {n : Numeral} (text : NumeralText n cs) : Opens cs := by
  obtain ⟨proper, exponent, _, rfl⟩ := text
  cases n.negative with
  | true => exact opens_cons (by decide) _
  | false =>
    obtain ⟨first, rest, whole⟩ : ∃ first rest, n.whole = first :: rest := by
      rcases proper.whole with zero | ⟨first, rest, whole, _⟩
      · exact ⟨0, [], zero⟩
      · exact ⟨first, rest, whole⟩
    have all : ∀ d < 10, isSpace (Nat.digitChar d) = false ∧ Nat.digitChar d ≠ ']' := by decide
    have small : first < 10 := proper.wholeDigits first (by simp [whole])
    rw [whole]
    exact opens_cons (all first small) _

theorem Takes.atItem (opens : Opens cs) (takes : Takes ⟨stack, .value⟩ cs stack n) :
    Takes ⟨stack, .item⟩ cs stack n := by
  obtain ⟨c, rest, rfl, space, bracket⟩ := opens
  have same : step ⟨stack, .item⟩ c = step ⟨stack, .value⟩ c := by simp [step, space, bracket]
  intro more delimited
  rw [List.cons_append, List.foldl_cons, same]
  exact takes more delimited

theorem opening_bracket (stack : List Frame) :
    step ⟨stack, .value⟩ '[' = ⟨.items [] :: stack, .item⟩ := rfl

theorem opening_brace (stack : List Frame) :
    step ⟨stack, .value⟩ '\x7b' = ⟨.members [] none :: stack, .member⟩ := rfl

/-- What the machine makes of a text that spells a part, wherever such a part is due. -/
def Means : Part → List Char → Prop
  | .value n, cs => Opens cs ∧ ∀ stack, ValueDue stack → Takes ⟨stack, .value⟩ cs stack n
  | .item n, cs => ∀ stack, ValueDue stack →
    Leads ⟨stack, .value⟩ cs (deliver stack n) ∧ Leads ⟨stack, .item⟩ cs (deliver stack n)
  | .items l, cs => ∀ stack,
    Leads ⟨.items [] :: stack, .item⟩ cs ⟨.items l.reverse :: stack, .after⟩
  | .member e, cs => ∀ m stack done, Waits m →
    step m '"' = ⟨.members done none :: stack, .quote .empty .outside⟩ →
      Leads m cs ⟨.members (e :: done) none :: stack, .after⟩
  | .members l, cs => ∀ stack,
    Leads ⟨.members [] none :: stack, .member⟩ cs ⟨.members l.reverse none :: stack, .after⟩

theorem means_item {before after : List Char} (blank : AllBlank before) (value : Means (.value n) cs)
    (blank' : AllBlank after) : Means (.item n) (before ++ (cs ++ after)) := by
  obtain ⟨opens, takes⟩ := value
  intro stack due
  have behind : Leads (deliver stack n) after (deliver stack n) :=
    leads_of_foldl ((waits_deliver stack n).foldl blank')
  have ends : ∀ rest, Delimited rest → Delimited (after ++ rest) := fun _ => delimited_blanks blank'
  constructor
  · exact .run ((waits_value stack).foldl blank) (Leads.followedBy (takes stack due) ends behind)
  · exact .run ((waits_item stack).foldl blank)
      (Leads.followedBy ((takes stack due).atItem opens) ends behind)

theorem means_nextItem {l : List Node} (items : Means (.items l) cs) (item : Means (.item n) ds) :
    Means (.items (l ++ [n])) (cs ++ ',' :: ds) := by
  intro stack
  have last := (item (.items l.reverse :: stack) fun _ => rfl).1
  apply (items stack).followedBy fun rest _ => delimited_cons (.inr (.inl rfl))
  have comma : step ⟨.items l.reverse :: stack, .after⟩ ',' = ⟨.items l.reverse :: stack, .value⟩ := rfl
  apply Leads.head comma
  simpa [deliver] using last

theorem means_member {l : List Piece} {before name after : List Char} (blank : AllBlank before)
    (text : Pieces l name) (blank' : AllBlank after) (item : Means (.item n) ds) :
    Means (.member (Piece.node l, n)) (before ++ '"' :: (name ++ '"' :: (after ++ ':' :: ds))) := by
  intro m stack done waits opens
  have quoted : ('"' :: (name ++ ['"'])).foldl step m =
      ⟨.members done (some (Piece.node l)) :: stack, .colon⟩ := foldl_string opens text
  have value := (item (.members done (some (Piece.node l)) :: stack) fun _ => rfl).1
  have colon : Waits ⟨.members done (some (Piece.node l)) :: stack, .colon⟩ :=
    fun _ blank => if_pos blank
  have split : '"' :: (name ++ '"' :: (after ++ ':' :: ds)) =
      '"' :: (name ++ ['"']) ++ (after ++ ':' :: ds) := by simp
  rw [split]
  apply Leads.run (waits.foldl blank)
  apply Leads.run quoted
  apply Leads.run (colon.foldl blank')
  exact Leads.head rfl value

theorem means_nextMember {l : List (Node × Node)} {e : Node × Node} (members : Means (.members l) cs)
    (member : Means (.member e) ds) : Means (.members (l ++ [e])) (cs ++ ',' :: ds) := by
  intro stack
  have last := member ⟨.members l.reverse none :: stack, .name⟩ stack l.reverse (waits_name _) rfl
  apply (members stack).followedBy fun rest _ => delimited_cons (.inr (.inl rfl))
  have comma : step ⟨.members l.reverse none :: stack, .after⟩ ',' =
      ⟨.members l.reverse none :: stack, .name⟩ := rfl
  apply Leads.head comma
  simpa using last

/-- By induction on how a text is spelled: the machine takes it for what it spells. -/
theorem means_of_spells {part : Part} (spells : Spells part cs) : Means part cs := by
  induction spells with
  | null => exact ⟨opens_cons (by decide) _, fun stack _ => takes_literal rfl⟩
  | truth => exact ⟨opens_cons (by decide) _, fun stack _ => takes_literal rfl⟩
  | falsity => exact ⟨opens_cons (by decide) _, fun stack _ => takes_literal rfl⟩
  | numeral text => exact ⟨opens_numeral text, fun stack _ => takes_numeral text stack⟩
  | @string l cs text =>
    refine ⟨opens_cons (by decide) _, ?_⟩
    intro stack due
    have ran := foldl_string (m := ⟨stack, .value⟩) rfl text
    rw [due] at ran
    exact leads_of_foldl ran
  | emptyArray blank =>
    refine ⟨opens_cons (by decide) _, fun stack _ => ?_⟩
    apply Leads.head (opening_bracket stack)
    exact .run ((waits_item _).foldl blank) (leads_of_foldl rfl)
  | array items means =>
    refine ⟨opens_cons (by decide) _, fun stack _ => ?_⟩
    apply Leads.head (opening_bracket stack)
    apply (means stack).followedBy fun rest _ => delimited_cons (.inr (.inr (.inl rfl)))
    exact leads_of_foldl (by simp [step, afterValue, between, isSpace])
  | emptyObject blank =>
    refine ⟨opens_cons (by decide) _, fun stack _ => ?_⟩
    apply Leads.head (opening_brace stack)
    exact .run ((waits_member _).foldl blank) (leads_of_foldl rfl)
  | object members means =>
    refine ⟨opens_cons (by decide) _, fun stack _ => ?_⟩
    apply Leads.head (opening_brace stack)
    apply (means stack).followedBy fun rest _ => delimited_cons (.inr (.inr (.inr rfl)))
    exact leads_of_foldl (by simp [step, afterValue, between, isSpace])
  | item blank value blank' means => exact means_item blank means blank'
  | firstItem item means => exact fun stack => (means (.items [] :: stack) fun _ => rfl).2
  | nextItem items item means means' => exact means_nextItem means means'
  | member blank text blank' item means => exact means_member blank text blank' means
  | firstMember member means =>
    exact fun stack => means ⟨.members [] none :: stack, .member⟩ stack [] (waits_member _) rfl
  | nextMember members member means means' => exact means_nextMember means means'

end Spells

end Machine

theorem Spells.ofText {s : String} {n : Node} (spells : Spells (.item n) s.toList) :
    Document.ofText s = ⟨n, true⟩ := by
  have taken : Takes start s.toList [] n := (means_of_spells spells [] fun _ => rfl).1
  exact taken.ofText

end GridSweep.Json
