import GridSweep.Proofs.Json.Scalars
import Mathlib.Data.List.Induction

/-!
What the machine accepts. After any text the machine stands at a place of the grammar, or the text can
never become that of a value (`Fits`); each character keeps this (`Fits.step`). So a text that is read
with nothing amiss is one that the grammar spells, and the tree is the one that it spells
(`ofText_eq_iff`).
-/
namespace GridSweep.Json

open GridSweep.Decode Machine

theorem AllBlank.concat {blanks : List Char} (all : AllBlank blanks) {c : Char}
    (blank : isSpace c = true) : AllBlank (blanks ++ [c]) := by
  intro d hd
  rcases List.mem_append.mp hd with hd | hd
  · exact all d hd
  · rwa [List.mem_singleton.mp hd]

/-- A part with blanks at its end goes on with further blanks. -/
theorem Spells.blank {part : Part} {cs : List Char} (spells : Spells part cs)
    (loose : ∀ n, part ≠ .value n) {c : Char} (blank : isSpace c = true) : Spells part (cs ++ [c]) := by
  induction spells with
  | null | truth | falsity | numeral text | string text => exact absurd rfl (loose _)
  | emptyArray _ | array _ | emptyObject _ | object _ => exact absurd rfl (loose _)
  | item blanks value blanks' =>
    have whole := Spells.item blanks value (blanks'.concat blank)
    simpa using whole
  | firstItem item ih => exact .firstItem (ih (by simp))
  | nextItem items item _ ih =>
    have whole := Spells.nextItem items (ih (by simp))
    simpa using whole
  | member blanks text blanks' item ih =>
    have whole := Spells.member blanks text blanks' (ih (by simp))
    simpa using whole
  | firstMember member ih => exact .firstMember (ih (by simp))
  | nextMember members member _ ih =>
    have whole := Spells.nextMember members (ih (by simp))
    simpa using whole

namespace Machine

section Places

/-- The texts inside an array up to where its next item begins, when these items are done. -/
inductive ItemsBefore : List Node → List Char → Prop where
  | first : ItemsBefore [] []
  | next {done : List Node} {cs : List Char} (items : Spells (.items done.reverse) cs) :
      ItemsBefore done (cs ++ [','])

/-- The texts inside an object up to where its next member begins, when these members are done. -/
inductive MembersBefore : List (Node × Node) → List Char → Prop where
  | first : MembersBefore [] []
  | next {done : List (Node × Node)} {cs : List Char} (members : Spells (.members done.reverse) cs) :
      MembersBefore done (cs ++ [','])

inductive Want where
  | value
  | name

/-- The texts after which a value, or the name of a member, is due inside these arrays and objects. -/
inductive Due : Want → List Frame → List Char → Prop where
  | whole {blanks : List Char} (blank : AllBlank blanks) : Due .value [] blanks
  | item {stack : List Frame} {done : List Node} {cs ds blanks : List Char}
      (outer : Due .value stack cs) (before : ItemsBefore done ds) (blank : AllBlank blanks) :
      Due .value (.items done :: stack) (cs ++ '[' :: (ds ++ blanks))
  | name {stack : List Frame} {done : List (Node × Node)} {cs ds blanks : List Char}
      (outer : Due .value stack cs) (before : MembersBefore done ds) (blank : AllBlank blanks) :
      Due .name (.members done none :: stack) (cs ++ '\x7b' :: (ds ++ blanks))
  | member {stack : List Frame} {done : List (Node × Node)} {l : List Piece}
      {cs name after blanks : List Char} (named : Due .name (.members done none :: stack) cs)
      (text : Pieces l name) (blank : AllBlank after) (blank' : AllBlank blanks) :
      Due .value (.members done (some (Piece.node l)) :: stack)
        (cs ++ '"' :: (name ++ '"' :: (after ++ ':' :: blanks)))

/-- The texts that have completed a value: the whole one, or one inside these arrays and objects. -/
inductive Complete : Machine → List Char → Prop where
  | whole {n : Node} {cs : List Char} (item : Spells (.item n) cs) : Complete ⟨[], .done n true⟩ cs
  | items {stack : List Frame} {done : List Node} {cs ds : List Char} (outer : Due .value stack cs)
      (items : Spells (.items done.reverse) ds) :
      Complete ⟨.items done :: stack, .after⟩ (cs ++ '[' :: ds)
  | members {stack : List Frame} {done : List (Node × Node)} {cs ds : List Char}
      (outer : Due .value stack cs) (members : Spells (.members done.reverse) ds) :
      Complete ⟨.members done none :: stack, .after⟩ (cs ++ '\x7b' :: ds)

variable {want : Want} {stack : List Frame} {cs ds : List Char} {n : Node}

theorem Due.blank (due : Due want stack cs) {c : Char} (blank : isSpace c = true) :
    Due want stack (cs ++ [c]) := by
  cases due with
  | whole blanks => exact .whole (blanks.concat blank)
  | item outer before blanks => simpa using Due.item outer before (blanks.concat blank)
  | name outer before blanks => simpa using Due.name outer before (blanks.concat blank)
  | member named text blanks blanks' =>
    simpa using Due.member named text blanks (blanks'.concat blank)

theorem ItemsBefore.spells {done : List Node} (before : ItemsBefore done cs)
    (item : Spells (.item n) ds) : Spells (.items (n :: done).reverse) (cs ++ ds) := by
  cases before with
  | first => exact .firstItem item
  | next items => simpa using Spells.nextItem items item

theorem MembersBefore.spells {done : List (Node × Node)} {e : Node × Node}
    (before : MembersBefore done cs) (member : Spells (.member e) ds) :
    Spells (.members (e :: done).reverse) (cs ++ ds) := by
  cases before with
  | first => exact .firstMember member
  | next members => simpa using Spells.nextMember members member

/-- Where a value is due, the text of a value completes it. -/
theorem Due.deliver (due : Due .value stack cs) (value : Spells (.value n) ds) :
    Complete (deliver stack n) (cs ++ ds) := by
  cases due with
  | whole blank =>
    have item := Spells.item blank value allBlank_nil
    simpa [Machine.deliver] using Complete.whole item
  | item outer before blank =>
    have items := before.spells (.item blank value allBlank_nil)
    simpa [Machine.deliver] using Complete.items outer items
  | member named text blank blank' =>
    cases named with
    | name outer before blank'' =>
      have members := before.spells (.member blank'' text blank (.item blank' value allBlank_nil))
      simpa [Machine.deliver] using Complete.members outer members

end Places

/-- Nothing that follows can make a value of the text. -/
def Dead (m : Machine) : Prop :=
  (∃ n, m.mode = .done n false) ∨ .misplaced ∈ m.stack ∧ ∀ n clean, m.mode ≠ .done n clean

/-- The machine after a text: at a place of the grammar, or dead. -/
inductive Fits : Machine → List Char → Prop where
  | value {stack : List Frame} {cs : List Char} (due : Due .value stack cs) : Fits ⟨stack, .value⟩ cs
  | item {stack : List Frame} {cs blanks : List Char} (outer : Due .value stack cs)
      (blank : AllBlank blanks) : Fits ⟨.items [] :: stack, .item⟩ (cs ++ '[' :: blanks)
  | member {stack : List Frame} {cs blanks : List Char} (outer : Due .value stack cs)
      (blank : AllBlank blanks) : Fits ⟨.members [] none :: stack, .member⟩ (cs ++ '\x7b' :: blanks)
  | name {stack : List Frame} {cs : List Char} (due : Due .name stack cs) : Fits ⟨stack, .name⟩ cs
  | colon {stack : List Frame} {done : List (Node × Node)} {l : List Piece}
      {cs name blanks : List Char} (named : Due .name (.members done none :: stack) cs)
      (text : Pieces l name) (blank : AllBlank blanks) :
      Fits ⟨.members done (some (Piece.node l)) :: stack, .colon⟩ (cs ++ '"' :: (name ++ '"' :: blanks))
  | complete {m : Machine} {cs : List Char} (complete : Complete m cs) : Fits m cs
  | quote {want : Want} {stack : List Frame} {q : Quote} {escape : Escape} {cs ds : List Char}
      (due : Due want stack cs) (quoting : Quoting q escape ds) :
      Fits ⟨stack, .quote q escape⟩ (cs ++ '"' :: ds)
  | numeral {stack : List Frame} {b : Begun} {cs ds : List Char} (due : Due .value stack cs)
      (numbering : Numbering b ds) : Fits ⟨stack, .numeral b⟩ (cs ++ ds)
  | literal {stack : List Frame} {n : Node} {cs ds rest : List Char} (due : Due .value stack cs)
      (value : Spells (.value n) (ds ++ rest)) (more : rest ≠ []) :
      Fits ⟨stack, .literal rest n⟩ (cs ++ ds)
  | dead {m : Machine} {cs : List Char} (dead : Dead m) : Fits m cs

section Dead

variable {stack : List Frame} {cs : List Char}

theorem dead_fault (stack : List Frame) : Dead (fault stack) := .inl ⟨_, rfl⟩

theorem dead_of_mem (misplaced : .misplaced ∈ stack) {mode : Mode}
    (going : ∀ n clean, mode ≠ .done n clean) : Dead ⟨stack, mode⟩ := .inr ⟨misplaced, going⟩

theorem dead_deliver (misplaced : .misplaced ∈ stack) (n : Node) : Dead (deliver stack n) := by
  match stack with
  | .items done :: rest =>
    have rest : .misplaced ∈ rest := by simpa using misplaced
    exact dead_of_mem (by simp [rest]) (by simp)
  | .members done key :: rest =>
    have rest : .misplaced ∈ rest := by simpa using misplaced
    exact dead_of_mem (by simp [rest]) (by simp)
  | .misplaced :: rest => exact dead_fault _

theorem dead_deliverText (misplaced : .misplaced ∈ stack) (n : Node) : Dead (deliverText stack n) := by
  match stack with
  | .members done none :: rest =>
    have rest : .misplaced ∈ rest := by simpa using misplaced
    exact dead_of_mem (by simp [rest]) (by simp)
  | .members done (some key) :: rest => exact dead_deliver misplaced n
  | .items done :: rest => exact dead_deliver misplaced n
  | .misplaced :: rest => exact dead_deliver misplaced n

theorem dead_opening (misplaced : .misplaced ∈ stack) (c : Char) : Dead (opening stack c) := by
  unfold opening
  repeat' split
  all_goals first
    | exact dead_fault _
    | exact dead_of_mem (by simp [misplaced]) (by simp)

theorem dead_openingName (stack : List Frame) (c : Char) : Dead (openingName stack c) := by
  unfold openingName
  split
  · split
    · exact dead_fault _
    · split
      · exact dead_fault _
      · exact dead_opening List.mem_cons_self c
  · exact dead_fault _

theorem dead_between (misplaced : .misplaced ∈ stack) (c : Char) : Dead (between stack c) := by
  match stack with
  | .items done :: rest =>
    have rest : .misplaced ∈ rest := by simpa using misplaced
    simp only [between]
    split
    · exact dead_of_mem misplaced (by simp)
    · split
      · exact dead_deliver rest _
      · exact dead_fault _
  | .members done key :: rest =>
    have rest : .misplaced ∈ rest := by simpa using misplaced
    simp only [between]
    split
    · exact dead_of_mem misplaced (by simp)
    · split
      · exact dead_deliver rest _
      · exact dead_fault _
  | .misplaced :: rest => exact dead_fault _

theorem Dead.afterValue {m : Machine} (dead : Dead m) (c : Char) : Dead (afterValue m c) := by
  obtain ⟨stack, mode⟩ := m
  rcases dead with ⟨n, rfl⟩ | ⟨misplaced, going⟩
  · exact .inl ⟨n, rfl⟩
  · unfold Machine.afterValue
    split
    · rename_i root clean ended
      exact absurd ended (going root clean)
    · split
      · exact .inr ⟨misplaced, going⟩
      · exact dead_between misplaced c

theorem dead_inText (misplaced : .misplaced ∈ stack) (q : Quote) (escape : Escape) (c : Char) :
    Dead (inText stack q escape c) := by
  unfold inText
  repeat' split
  all_goals first
    | exact dead_fault _
    | exact dead_deliverText misplaced _
    | exact dead_of_mem misplaced (by simp)

theorem dead_inNumeral (misplaced : .misplaced ∈ stack) (b : Begun) (c : Char) :
    Dead (inNumeral stack b c) := by
  unfold inNumeral
  split
  · exact dead_of_mem misplaced (by simp)
  · split
    · split
      · exact dead_fault _
      · exact (dead_deliver misplaced _).afterValue c
    · exact dead_fault _

theorem Dead.step {m : Machine} (dead : Dead m) (c : Char) : Dead (step m c) := by
  obtain ⟨stack, mode⟩ := m
  rcases dead with ⟨n, rfl⟩ | ⟨misplaced, going⟩
  · exact .inl ⟨n, rfl⟩
  · have stays {mode : Mode} (going : ∀ n clean, mode ≠ .done n clean) : Dead ⟨stack, mode⟩ :=
      dead_of_mem misplaced going
    cases mode with
    | value =>
      simp only [Machine.step]
      split
      · exact stays going
      · exact dead_opening misplaced c
    | item =>
      simp only [Machine.step]
      split
      · exact stays going
      · split
        · exact dead_between misplaced c
        · exact dead_opening misplaced c
    | member =>
      simp only [Machine.step]
      split
      · exact stays going
      · split
        · exact dead_between misplaced c
        · split
          · exact stays (by simp)
          · exact dead_openingName stack c
    | name | colon =>
      simp only [Machine.step]
      split
      · exact stays going
      · split
        · exact stays (by simp)
        · exact dead_fault _
    | after => exact (stays going).afterValue c
    | quote q escape => exact dead_inText misplaced q escape c
    | numeral b => exact dead_inNumeral misplaced b c
    | literal rest n =>
      simp only [Machine.step]
      split
      · exact dead_fault _
      · split
        · exact dead_deliver misplaced n
        · exact dead_fault _
      · split
        · exact stays (by simp)
        · exact dead_fault _
    | done n clean => exact absurd rfl (going n clean)

end Dead

section Step

variable {want : Want} {stack : List Frame} {cs ds : List Char} {n : Node}

theorem fits_fault (stack : List Frame) (cs : List Char) : Fits (fault stack) cs :=
  .dead (dead_fault stack)

theorem Due.opening (due : Due .value stack cs) (c : Char) : Fits (opening stack c) (cs ++ [c]) := by
  unfold Machine.opening
  split
  · rename_i bracket
    obtain rfl : c = '[' := by simpa using bracket
    exact .item due allBlank_nil
  split
  · rename_i brace
    obtain rfl : c = '\x7b' := by simpa using brace
    exact .member due allBlank_nil
  split
  · rename_i quote
    obtain rfl : c = '"' := by simpa using quote
    exact .quote due (.outside .nothing)
  split
  · rename_i letter
    obtain rfl : c = 'n' := by simpa using letter
    exact .literal due .null (by simp)
  split
  · rename_i letter
    obtain rfl : c = 't' := by simpa using letter
    exact .literal due .truth (by simp)
  split
  · rename_i letter
    obtain rfl : c = 'f' := by simpa using letter
    exact .literal due .falsity (by simp)
  split
  · rename_i minus
    obtain rfl : c = '-' := by simpa using minus
    exact .numeral due .minus
  cases digit : digit? c with
  | none => exact fits_fault stack _
  | some d =>
    obtain ⟨small, rfl⟩ := digit_of_digit? digit
    have text := Numbering.numeral (numeralText_digit false small)
    match d with
    | 0 => exact .numeral due text
    | d + 1 => exact .numeral due text

theorem Complete.step {m : Machine} (complete : Complete m cs) (c : Char) :
    Fits (step m c) (cs ++ [c]) := by
  cases complete with
  | @whole n cs item =>
    cases blank : isSpace c with
    | true =>
      have longer := Complete.whole (item.blank (by simp) blank)
      simpa [Machine.step, Machine.afterValue, blank] using Fits.complete longer
    | false => exact .dead (.inl ⟨n, by simp [Machine.step, Machine.afterValue, blank]⟩)
  | @items stack done cs ds outer items =>
    simp only [Machine.step, Machine.afterValue]
    split
    · rename_i blank
      have longer := Complete.items outer (items.blank (by simp) blank)
      simpa using Fits.complete longer
    · simp only [between]
      split
      · rename_i comma
        obtain rfl : c = ',' := by simpa using comma
        have next := Due.item outer (.next items) allBlank_nil
        simpa using Fits.value next
      · split
        · rename_i bracket
          obtain rfl : c = ']' := by simpa using bracket
          simpa using Fits.complete (outer.deliver (.array items))
        · exact fits_fault _ _
  | @members stack done cs ds outer members =>
    simp only [Machine.step, Machine.afterValue]
    split
    · rename_i blank
      have longer := Complete.members outer (members.blank (by simp) blank)
      simpa using Fits.complete longer
    · simp only [between]
      split
      · rename_i comma
        obtain rfl : c = ',' := by simpa using comma
        have next := Due.name outer (.next members) allBlank_nil
        simpa using Fits.name next
      · split
        · rename_i brace
          obtain rfl : c = '\x7d' := by simpa using brace
          simpa using Fits.complete (outer.deliver (.object members))
        · exact fits_fault _ _

theorem Due.deliverText (due : Due want stack cs) {l : List Piece} (pieces : Pieces l ds) :
    Fits (deliverText stack (Piece.node l)) (cs ++ '"' :: (ds ++ ['"'])) := by
  cases due with
  | name outer before blank =>
    have named := Due.name outer before blank
    simpa [Machine.deliverText] using Fits.colon named pieces allBlank_nil
  | whole blank => exact .complete ((Due.whole blank).deliver (.string pieces))
  | item outer before blank =>
    exact .complete ((Due.item outer before blank).deliver (.string pieces))
  | member named text blank blank' =>
    exact .complete ((Due.member named text blank blank').deliver (.string pieces))

theorem Due.quote (due : Due want stack cs) {q : Quote} {escape : Escape}
    (quoting : Quoting q escape ds) (c : Char) :
    Fits (inText stack q escape c) (cs ++ '"' :: (ds ++ [c])) := by
  have ways := quoting.step stack c
  generalize inText stack q escape c = next at ways
  cases ways with
  | further quoting => exact .quote due quoting
  | closed pieces quote =>
    subst quote
    exact due.deliverText pieces
  | fault => exact fits_fault stack _

theorem Due.numeral (due : Due .value stack cs) {b : Begun} (numbering : Numbering b ds) (c : Char) :
    Fits (inNumeral stack b c) (cs ++ (ds ++ [c])) := by
  unfold inNumeral
  split
  · rename_i next extended
    exact .numeral due (numbering.extend extended)
  · split
    · rename_i n node
      split
      · exact fits_fault stack _
      · have complete := due.deliver (numbering.spells node)
        rw [← step_deliver, ← List.append_assoc]
        exact complete.step c
    · exact fits_fault stack _

theorem Due.literal (due : Due .value stack cs) {rest : List Char}
    (value : Spells (.value n) (ds ++ rest)) (c : Char) :
    Fits (step ⟨stack, .literal rest n⟩ c) (cs ++ (ds ++ [c])) := by
  match rest with
  | [] => exact fits_fault stack _
  | [d] =>
    simp only [step]
    split
    · rename_i same
      obtain rfl : c = d := by simpa using same
      exact .complete (due.deliver value)
    · exact fits_fault stack _
  | d :: e :: rest =>
    simp only [step]
    split
    · rename_i same
      obtain rfl : c = d := by simpa using same
      exact .literal due (by simpa using value) (by simp)
    · exact fits_fault stack _

/-- Each character leaves the machine at a place of the grammar, or dead. -/
theorem Fits.step {m : Machine} (fits : Fits m cs) (c : Char) : Fits (step m c) (cs ++ [c]) := by
  cases fits with
  | value due =>
    simp only [Machine.step]
    split
    · rename_i blank
      exact .value (due.blank blank)
    · exact due.opening c
  | @item stack cs blanks outer blanks' =>
    simp only [Machine.step]
    split
    · rename_i blank
      simpa using Fits.item outer (blanks'.concat blank)
    split
    · rename_i bracket
      obtain rfl : c = ']' := by simpa using bracket
      simpa [between] using Fits.complete (outer.deliver (.emptyArray blanks'))
    · exact (Due.item outer .first blanks').opening c
  | @member stack cs blanks outer blanks' =>
    simp only [Machine.step]
    split
    · rename_i blank
      simpa using Fits.member outer (blanks'.concat blank)
    split
    · rename_i brace
      obtain rfl : c = '\x7d' := by simpa using brace
      simpa [between] using Fits.complete (outer.deliver (.emptyObject blanks'))
    split
    · rename_i quote
      obtain rfl : c = '"' := by simpa using quote
      exact .quote (Due.name outer .first blanks') (.outside .nothing)
    · exact .dead (dead_openingName _ c)
  | name due =>
    simp only [Machine.step]
    split
    · rename_i blank
      exact .name (due.blank blank)
    split
    · rename_i quote
      obtain rfl : c = '"' := by simpa using quote
      exact .quote due (.outside .nothing)
    · exact fits_fault _ _
  | colon named text blanks =>
    simp only [Machine.step]
    split
    · rename_i blank
      simpa using Fits.colon named text (blanks.concat blank)
    split
    · rename_i colon
      obtain rfl : c = ':' := by simpa using colon
      simpa using Fits.value (.member named text blanks allBlank_nil)
    · exact fits_fault _ _
  | complete complete => exact complete.step c
  | quote due quoting => simpa [Machine.step] using due.quote quoting c
  | numeral due numbering => simpa [Machine.step] using due.numeral numbering c
  | literal due value more => simpa using due.literal value c
  | dead dead => exact .dead (dead.step c)

theorem fits_foldl (cs : List Char) : Fits (cs.foldl step start) cs := by
  induction cs using List.reverseRecOn with
  | nil => exact .value (.whole allBlank_nil)
  | append_singleton cs c ih =>
    rw [List.foldl_append]
    exact ih.step c

theorem Complete.spells {m : Machine} (complete : Complete m cs)
    (read : Document.ofMachine m = ⟨n, true⟩) : Spells (.item n) cs := by
  cases complete with
  | whole item =>
    obtain rfl : _ = n := by simpa [Document.ofMachine] using read
    exact item
  | items outer items => simp [Document.ofMachine] at read
  | members outer members => simp [Document.ofMachine] at read

theorem not_clean_deliver (misplaced : .misplaced ∈ stack) (n : Node) :
    (Document.ofMachine (deliver stack n)).clean = false := by
  match stack with
  | .items done :: rest => rfl
  | .members done key :: rest => rfl
  | .misplaced :: rest => rfl

theorem Dead.not_clean {m : Machine} (dead : Dead m) : (Document.ofMachine m).clean = false := by
  obtain ⟨stack, mode⟩ := m
  rcases dead with ⟨n, rfl⟩ | ⟨misplaced, going⟩
  · rfl
  · cases mode with
    | done n clean => exact absurd rfl (going n clean)
    | numeral b =>
      cases node : numeralNode? b with
      | none => simp [Document.ofMachine, node]
      | some n =>
        rw [ofMachine_numeral node]
        exact not_clean_deliver misplaced n
    | value | item | member | name | colon | after | quote _ _ | literal _ _ => rfl

theorem Fits.spells {m : Machine} (fits : Fits m cs) (read : Document.ofMachine m = ⟨n, true⟩) :
    Spells (.item n) cs := by
  cases fits with
  | complete complete => exact complete.spells read
  | @numeral stack b cs ds due numbering =>
    cases node : numeralNode? b with
    | none => simp [Document.ofMachine, node] at read
    | some k =>
      rw [ofMachine_numeral node] at read
      exact (due.deliver (numbering.spells node)).spells read
  | dead dead =>
    have broken := dead.not_clean
    simp [read] at broken
  | value _ | item _ _ | member _ _ | name _ | colon _ _ _ | quote _ _ | literal _ _ _ =>
    simp [Document.ofMachine] at read

end Step

end Machine

/-- A text is read with nothing amiss just when the grammar spells it, for the tree that it spells. -/
theorem ofText_eq_iff {s : String} {n : Node} :
    Document.ofText s = ⟨n, true⟩ ↔ Spells (.item n) s.toList := by
  constructor
  · intro read
    rw [ofText_eq_foldl] at read
    exact (fits_foldl s.toList).spells read
  · exact Spells.ofText

end GridSweep.Json
