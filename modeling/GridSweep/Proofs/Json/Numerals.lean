import GridSweep.Json.Reader
import GridSweep.Proofs.Number.Written

namespace GridSweep.Json

open GridSweep.Decode

namespace Machine

def IsDelimiter (c : Char) : Prop := isSpace c = true ∨ c = ',' ∨ c = ']' ∨ c = '\x7d'

/-- What may follow a value: nothing, or a text that begins with a delimiter. -/
def Delimited (rest : List Char) : Prop := ∀ c more, rest = c :: more → IsDelimiter c

/-- The machine takes the characters for the node, whatever may follow them. -/
def Takes (m : Machine) (cs : List Char) (stack : List Frame) (n : Node) : Prop :=
  ∀ rest, Delimited rest → Document.ofMachine ((cs ++ rest).foldl step m) =
    Document.ofMachine (rest.foldl step (deliver stack n))

theorem delimited_nil : Delimited [] := by
  intro c more h
  cases h

theorem delimited_cons {c : Char} {rest : List Char} (h : IsDelimiter c) : Delimited (c :: rest) := by
  intro d more same
  cases same
  exact h

theorem not_isDigit_of_isDelimiter {c : Char} (h : IsDelimiter c) : c.isDigit = false := by
  rcases h with blank | rfl | rfl | rfl
  · simp only [isSpace, Bool.or_eq_true, beq_iff_eq] at blank
    rcases blank with ((rfl | rfl) | rfl) | rfl <;> rfl
  · rfl
  · rfl
  · rfl

theorem ne_of_isDelimiter {c : Char} (h : IsDelimiter c) :
    (c == '.') = false ∧ (c == 'e') = false ∧ (c == 'E') = false := by
  rcases h with blank | rfl | rfl | rfl
  · simp only [isSpace, Bool.or_eq_true, beq_iff_eq] at blank
    rcases blank with ((rfl | rfl) | rfl) | rfl <;> decide
  · decide
  · decide
  · decide

theorem digit?_digitChar {d : Nat} (h : d < 10) : digit? (Nat.digitChar d) = some d := by
  have all : ∀ d < 10, digit? (Nat.digitChar d) = some d := by decide
  exact all d h

/-- Once a value is complete, the next character meets the machine after the value. -/
theorem step_deliver (stack : List Frame) (n : Node) (c : Char) :
    step (deliver stack n) c = afterValue (deliver stack n) c := by
  match stack with
  | [] => rfl
  | .items done :: rest => rfl
  | .members done key :: rest => rfl
  | .misplaced :: rest => rfl

def MayEnd : Place → Prop
  | .zero | .whole | .fraction | .exponent => True
  | .minus | .point | .mark | .sign => False

theorem extend?_of_isDelimiter {b : Begun} {c : Char} (ends : MayEnd b.place) (h : IsDelimiter c) :
    extend? b c = none := by
  have noDigit : digit? c = none := by
    rw [digit?, not_isDigit_of_isDelimiter h]
    rfl
  obtain ⟨point, small, large⟩ := ne_of_isDelimiter h
  obtain ⟨place, negative, whole, fraction, exponent⟩ := b
  cases place with
  | zero | whole | fraction | exponent => simp [extend?, noDigit, point, small, large]
  | minus | point | mark | sign => exact ends.elim

theorem ofMachine_numeral {stack : List Frame} {b : Begun} {n : Node}
    (node : numeralNode? b = some n) :
    Document.ofMachine ⟨stack, .numeral b⟩ = Document.ofMachine (deliver stack n) := by
  simp only [Document.ofMachine, node]
  match stack with
  | [] => rfl
  | .items done :: rest => rfl
  | .members done key :: rest => rfl
  | .misplaced :: rest => rfl

theorem takes_begun {stack : List Frame} {b : Begun} {n : Node} (ends : MayEnd b.place)
    (node : numeralNode? b = some n) : Takes ⟨stack, .numeral b⟩ [] stack n := by
  intro rest delimited
  cases rest with
  | nil => exact ofMachine_numeral node
  | cons c more =>
    have ending := delimited c more rfl
    have stepped : step ⟨stack, .numeral b⟩ c = step (deliver stack n) c := by
      rw [step_deliver, step]
      simp only [inNumeral, extend?_of_isDelimiter ends ending, node,
        not_isDigit_of_isDelimiter ending, Bool.false_eq_true, if_false]
    rw [List.nil_append, List.foldl_cons, List.foldl_cons, stepped]

theorem step_extend {stack : List Frame} {b next : Begun} {c : Char} (h : extend? b c = some next) :
    step ⟨stack, .numeral b⟩ c = ⟨stack, .numeral next⟩ := by
  rw [step]
  simp only [inNumeral, h]

theorem foldl_digits {b : List Nat → Begun}
    (collects : ∀ ds d, d < 10 → extend? (b ds) (Nat.digitChar d) = some (b (d :: ds)))
    (stack : List Frame) {l : List Nat} (digits : Numeral.AllDigits l) (ds : List Nat) :
    (Numeral.digitChars l).foldl step ⟨stack, .numeral (b ds)⟩ =
      ⟨stack, .numeral (b (l.reverse ++ ds))⟩ := by
  induction l generalizing ds with
  | nil => rfl
  | cons d rest ih =>
    have first : d < 10 := digits d List.mem_cons_self
    have later := ih (fun e he => digits e (List.mem_cons_of_mem _ he)) (d :: ds)
    rw [Numeral.digitChars, List.map_cons, List.foldl_cons, step_extend (collects ds d first)]
    rw [Numeral.digitChars] at later
    rw [later, List.reverse_cons, List.append_assoc, List.singleton_append]

def wholePlace (whole : List Nat) : Place := if whole = [0] then .zero else .whole

theorem extend?_minus {d : Nat} (h : d < 10) : extend? ⟨.minus, true, [], none, none⟩
    (Nat.digitChar d) = some ⟨wholePlace [d], true, [d], none, none⟩ := by
  rw [extend?, digit?_digitChar h]
  match d with
  | 0 => rfl
  | d + 1 => rfl

theorem opening_digit {d : Nat} (h : d < 10) (stack : List Frame) :
    opening stack (Nat.digitChar d) =
      ⟨stack, .numeral ⟨wholePlace [d], false, [d], none, none⟩⟩ := by
  match d, h with
  | 0, _ | 1, _ | 2, _ | 3, _ | 4, _ | 5, _ | 6, _ | 7, _ | 8, _ | 9, _ => rfl

theorem not_isSpace_digitChar {d : Nat} (h : d < 10) : isSpace (Nat.digitChar d) = false := by
  have all : ∀ d < 10, isSpace (Nat.digitChar d) = false := by decide
  exact all d h

theorem foldl_whole {n : Numeral} (proper : n.Proper) (stack : List Frame) :
    (Numeral.signChars n.negative ++ Numeral.digitChars n.whole).foldl step ⟨stack, .value⟩ =
      ⟨stack, .numeral ⟨wholePlace n.whole, n.negative, n.whole.reverse, none, none⟩⟩ := by
  obtain ⟨first, rest, whole, alone⟩ :
      ∃ first rest, n.whole = first :: rest ∧ (first = 0 → rest = []) := by
    rcases proper.whole with zero | ⟨first, rest, whole, nonzero⟩
    · exact ⟨0, [], zero, fun _ => rfl⟩
    · exact ⟨first, rest, whole, fun zero => absurd zero nonzero⟩
  have digits := proper.wholeDigits
  rw [whole] at digits ⊢
  have small : first < 10 := digits first List.mem_cons_self
  have begun : (Numeral.signChars n.negative ++ [Nat.digitChar first]).foldl step ⟨stack, .value⟩ =
      ⟨stack, .numeral ⟨wholePlace [first], n.negative, [first], none, none⟩⟩ := by
    cases n.negative with
    | false =>
      rw [Numeral.signChars, if_neg Bool.false_ne_true, List.nil_append, List.foldl_cons,
        List.foldl_nil, step, not_isSpace_digitChar small]
      exact opening_digit small stack
    | true => exact step_extend (extend?_minus small)
  have split : Numeral.signChars n.negative ++ Numeral.digitChars (first :: rest) =
      (Numeral.signChars n.negative ++ [Nat.digitChar first]) ++ Numeral.digitChars rest := by
    rw [List.append_assoc]
    rfl
  rw [split, List.foldl_append, begun]
  by_cases zero : first = 0
  · obtain rfl := alone zero
    subst zero
    rfl
  · have place : wholePlace [first] = .whole := if_neg (by simpa using zero)
    have place' : wholePlace (first :: rest) = .whole :=
      if_neg fun same => zero (List.cons.inj same).1
    have collects (ds : List Nat) (d : Nat) (h : d < 10) :
        extend? ⟨.whole, n.negative, ds, none, none⟩ (Nat.digitChar d) =
          some ⟨.whole, n.negative, d :: ds, none, none⟩ := by
      rw [extend?, digit?_digitChar h]
    rw [place, place', foldl_digits collects stack
      (fun d hd => digits d (List.mem_cons_of_mem _ hd)), List.reverse_cons]

def fractionPlace (n : Numeral) : Place :=
  if n.fraction.isNone then wholePlace n.whole else .fraction

def endPlace (n : Numeral) : Place := if n.exponent.isNone then fractionPlace n else .exponent

def begun (n : Numeral) : Begun :=
  ⟨endPlace n, n.negative, n.whole.reverse, n.fraction.map List.reverse,
    n.exponent.map fun e => (e.1, e.2.reverse)⟩

theorem extend?_point (whole : List Nat) (negative : Bool) (done : List Nat) :
    extend? ⟨wholePlace whole, negative, done, none, none⟩ '.' =
      some ⟨.point, negative, done, none, none⟩ := by
  unfold wholePlace
  split <;> rfl

theorem foldl_fraction {n : Numeral} (proper : n.Proper) (stack : List Frame) (done : List Nat) :
    (Numeral.fractionChars n.fraction).foldl step
        ⟨stack, .numeral ⟨wholePlace n.whole, n.negative, done, none, none⟩⟩ =
      ⟨stack, .numeral
        ⟨fractionPlace n, n.negative, done, n.fraction.map List.reverse, none⟩⟩ := by
  cases fraction : n.fraction with
  | none => simp [Numeral.fractionChars, fractionPlace, fraction]
  | some l =>
    obtain ⟨nonempty, digits⟩ := proper.fraction l fraction
    obtain ⟨d, rest, rfl⟩ := List.exists_cons_of_ne_nil nonempty
    have small : d < 10 := digits d List.mem_cons_self
    have first : extend? ⟨.point, n.negative, done, none, none⟩ (Nat.digitChar d) =
        some ⟨.fraction, n.negative, done, some [d], none⟩ := by
      rw [extend?, digit?_digitChar small]
    have collects (ds : List Nat) (d : Nat) (h : d < 10) :
        extend? ⟨.fraction, n.negative, done, some ds, none⟩ (Nat.digitChar d) =
          some ⟨.fraction, n.negative, done, some (d :: ds), none⟩ := by
      rw [extend?, digit?_digitChar h]
      rfl
    rw [Numeral.fractionChars, Numeral.digitChars, List.map_cons, List.foldl_cons,
      step_extend (extend?_point _ _ _), List.foldl_cons, step_extend first, ← Numeral.digitChars,
      foldl_digits collects stack fun e he => digits e (List.mem_cons_of_mem _ he)]
    simp [fractionPlace, fraction]

theorem extend?_mark (n : Numeral) {b : Begun} (place : b.place = fractionPlace n) {mark : Char}
    (isMark : mark = 'e' ∨ mark = 'E') : extend? b mark = some { b with place := .mark } := by
  obtain ⟨_, negative, whole, fraction, exponent⟩ := b
  simp only at place
  subst place
  unfold fractionPlace wholePlace
  rcases isMark with rfl | rfl
  all_goals
    split
    · split <;> rfl
    · rfl

/-- The texts of an exponent; a plus may be left out. -/
inductive ExponentText : Option (Bool × List Nat) → List Char → Prop where
  | none : ExponentText none []
  | some {mark : Char} {down : Bool} {sign : List Char} (digits : List Nat)
      (isMark : mark = 'e' ∨ mark = 'E')
      (signs : (down, sign) ∈ [(false, []), (false, ['+']), (true, ['-'])]) :
      ExponentText (some (down, digits)) (mark :: (sign ++ Numeral.digitChars digits))

structure NumeralText (n : Numeral) (cs : List Char) : Prop where
  proper : n.Proper
  text : ∃ exponent, ExponentText n.exponent exponent ∧
    cs = Numeral.signChars n.negative ++ Numeral.digitChars n.whole ++
      Numeral.fractionChars n.fraction ++ exponent

theorem exponentText_exponentChars (e : Option (Bool × List Nat)) :
    ExponentText e (Numeral.exponentChars e) := by
  match e with
  | none => exact .none
  | some (false, digits) => exact @ExponentText.some 'e' false ['+'] digits (.inl rfl) (by simp)
  | some (true, digits) => exact @ExponentText.some 'e' true ['-'] digits (.inl rfl) (by simp)

theorem numeralText_chars {n : Numeral} (proper : n.Proper) : NumeralText n n.chars :=
  ⟨proper, _, exponentText_exponentChars n.exponent, by simp [Numeral.chars, Numeral.unsigned]⟩

/-- The first digit of an exponent follows the mark, or the sign behind it. -/
theorem foldl_sign {negative down : Bool} {done : List Nat} {fraction : Option (List Nat)}
    {sign : List Char} (signs : (down, sign) ∈ [(false, []), (false, ['+']), (true, ['-'])]) {d : Nat}
    (small : d < 10) (stack : List Frame) :
    (sign ++ [Nat.digitChar d]).foldl step ⟨stack, .numeral ⟨.mark, negative, done, fraction, none⟩⟩ =
      ⟨stack, .numeral ⟨.exponent, negative, done, fraction, some (down, [d])⟩⟩ := by
  have signed (down : Bool) : extend? ⟨.sign, negative, done, fraction, some (down, [])⟩
      (Nat.digitChar d) = some ⟨.exponent, negative, done, fraction, some (down, [d])⟩ := by
    rw [extend?, digit?_digitChar small]
    rfl
  simp only [List.mem_cons, Prod.mk.injEq, List.not_mem_nil, or_false] at signs
  rcases signs with ⟨rfl, rfl⟩ | ⟨rfl, rfl⟩ | ⟨rfl, rfl⟩
  · apply step_extend
    rw [extend?, digit?_digitChar small]
  · exact step_extend (signed false)
  · exact step_extend (signed true)

theorem foldl_exponent {n : Numeral} (proper : n.Proper) {text : List Char}
    (spelled : ExponentText n.exponent text) (stack : List Frame) (done : List Nat)
    (fraction : Option (List Nat)) :
    text.foldl step ⟨stack, .numeral ⟨fractionPlace n, n.negative, done, fraction, none⟩⟩ =
      ⟨stack, .numeral ⟨endPlace n, n.negative, done, fraction,
        n.exponent.map fun e => (e.1, e.2.reverse)⟩⟩ := by
  generalize exponent : n.exponent = e at spelled
  cases spelled with
  | none => simp [endPlace, exponent]
  | @some mark down sign digits isMark signs =>
    obtain ⟨nonempty, small⟩ := proper.exponent (down, digits) exponent
    obtain ⟨d, rest, rfl⟩ := List.exists_cons_of_ne_nil nonempty
    have collects (ds : List Nat) (d : Nat) (h : d < 10) :
        extend? ⟨.exponent, n.negative, done, fraction, some (down, ds)⟩ (Nat.digitChar d) =
          some ⟨.exponent, n.negative, done, fraction, some (down, d :: ds)⟩ := by
      rw [extend?, digit?_digitChar h]
      rfl
    have split : sign ++ Numeral.digitChars (d :: rest) =
        (sign ++ [Nat.digitChar d]) ++ Numeral.digitChars rest := by
      simp [Numeral.digitChars]
    rw [List.foldl_cons, step_extend (extend?_mark n rfl isMark), split, List.foldl_append,
      foldl_sign signs (small d List.mem_cons_self),
      foldl_digits collects stack fun e he => small e (List.mem_cons_of_mem _ he)]
    simp [endPlace, exponent]

theorem foldl_numeral {n : Numeral} {cs : List Char} (text : NumeralText n cs) (stack : List Frame) :
    cs.foldl step ⟨stack, .value⟩ = ⟨stack, .numeral (begun n)⟩ := by
  obtain ⟨proper, exponent, spelled, rfl⟩ := text
  rw [List.foldl_append, List.foldl_append, foldl_whole proper, foldl_fraction proper,
    foldl_exponent proper spelled]
  rfl

theorem mayEnd_begun (n : Numeral) : MayEnd (begun n).place := by
  simp only [begun, endPlace, fractionPlace, wholePlace]
  split
  · split
    · split <;> trivial
    · trivial
  · trivial

def numeralNode (n : Numeral) : Node :=
  match n.number? with
  | some x => .num x
  | none => .unreadable

theorem numeralNode?_begun (n : Numeral) : numeralNode? (begun n) = some (numeralNode n) := by
  have back : (⟨(begun n).negative, (begun n).whole.reverse, (begun n).fraction.map List.reverse,
      (begun n).exponent.map fun e => (e.1, e.2.reverse)⟩ : Numeral) = n := by
    obtain ⟨negative, whole, fraction, exponent⟩ := n
    cases fraction <;> cases exponent <;> simp [begun]
  have ends := mayEnd_begun n
  cases place : (begun n).place with
  | minus | point | mark | sign =>
    rw [place] at ends
    exact ends.elim
  | zero | whole | fraction | exponent =>
    simp only [numeralNode?, place, back]
    rfl

theorem takes_numeral {n : Numeral} {cs : List Char} (text : NumeralText n cs) (stack : List Frame) :
    Takes ⟨stack, .value⟩ cs stack (numeralNode n) := by
  intro rest delimited
  rw [List.foldl_append, foldl_numeral text]
  exact takes_begun (mayEnd_begun n) (numeralNode?_begun n) rest delimited

theorem ofText_eq_foldl (s : String) :
    Document.ofText s = Document.ofMachine (s.toList.foldl step start) := by
  rw [Document.ofText, run_eq_foldl]

/-- A text that the machine takes for a node has that node for its tree and nothing amiss. -/
theorem Takes.ofText {s : String} {n : Node} (takes : Takes start s.toList [] n) :
    Document.ofText s = ⟨n, true⟩ := by
  have ended := takes [] delimited_nil
  rw [List.append_nil] at ended
  rw [ofText_eq_foldl, ended]
  rfl

end Machine

end GridSweep.Json

namespace GridSweep

def Number.ReadsBack (n : Number) : Prop := Json.parse? n.text = some (.num n)

def Double.ReadsBack (x : Double) : Prop := (Number.float x).ReadsBack

namespace Number

open Json Decode

theorem parse?_text (n : Number) :
    parse? n.text = (decodeTree value .text 0 (Machine.numeralNode n.numeral)).toOption := by
  have takes := Machine.takes_numeral (Machine.numeralText_chars n.proper_numeral) []
  rw [← n.text_eq_chars] at takes
  rw [parse?, decodeText, Machine.Takes.ofText takes]
  simp only [Document.decode, if_true]
  cases decodeTree value .text 0 (Machine.numeralNode n.numeral) <;> rfl

theorem ReadsBack.number?_numeral {n : Number} (h : n.ReadsBack) : n.numeral.number? = some n := by
  rw [ReadsBack, parse?_text, Machine.numeralNode] at h
  cases denoted : n.numeral.number? with
  | none =>
    rw [denoted] at h
    cases h
  | some m =>
    rw [denoted] at h
    cases m with
    | int i =>
      have same : Json.num (.int i) = .num n := Option.some.inj h
      exact congrArg some (Json.num.inj same)
    | float x =>
      have same : Json.ofDouble x = .num n := Option.some.inj h
      unfold Json.ofDouble at same
      split at same
      · exact congrArg some (Json.num.inj same)
      · cases same

theorem readsBack_int {i : Int} (h : Fits i) : (int i).ReadsBack := by
  rw [ReadsBack, parse?_text, Machine.numeralNode, number?_numeral_int h]
  rfl

end Number

theorem Double.ReadsBack.isFinite {x : Double} (h : x.ReadsBack) : x.isFinite = true := by
  have denoted := Number.ReadsBack.number?_numeral h
  rw [ReadsBack, Number.ReadsBack, Number.parse?_text, Json.Machine.numeralNode, denoted] at h
  have same : Json.ofDouble x = .num (.float x) := Option.some.inj h
  unfold Json.ofDouble at same
  split at same
  · rename_i finite
    exact finite
  · cases same

theorem Double.readsBack_of_numeral {x : Double} (finite : x.isFinite = true)
    (denoted : (Number.float x).numeral.number? = some (.float x)) : x.ReadsBack := by
  rw [ReadsBack, Number.ReadsBack, Number.parse?_text, Json.Machine.numeralNode, denoted]
  show some (Json.ofDouble x) = _
  rw [Json.ofDouble, if_pos finite]

theorem Double.readsBack_one : Double.one.ReadsBack :=
  readsBack_of_numeral (by decide +kernel) (by decide +kernel)

end GridSweep
