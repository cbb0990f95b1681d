import GridSweep.Proofs.Json.Grammar

namespace GridSweep.Json.Machine

open GridSweep.Decode

section Numerals

open Numeral

theorem digit_of_digit? {c : Char} {d : Nat} (h : digit? c = some d) :
    d < 10 ∧ c = Nat.digitChar d := by
  unfold digit? at h
  split at h
  · rename_i digit
    have bounds : 48 ≤ c.toNat ∧ c.toNat ≤ 57 := by
      simpa [Char.isDigit, UInt32.le_iff_toNat_le] using digit
    obtain rfl := Option.some.inj h
    have small : c.toNat - '0'.toNat < 10 := by
      simp only [Char.reduceToNat]
      omega
    refine ⟨small, Char.toNat_inj.mp ?_⟩
    rw [Nat.toNat_digitChar_of_lt_ten small]
    simp only [Char.reduceToNat]
    omega
  · cases h

theorem allDigits_concat {l : List Nat} {d : Nat} (digits : AllDigits l) (small : d < 10) :
    AllDigits (l ++ [d]) :=
  allDigits_append digits fun _ he => List.mem_singleton.mp he ▸ small

section Text

variable {n : Numeral} {cs : List Char} {d : Nat}

theorem NumeralText.eq_of_bare (text : NumeralText n cs) (bare : n.exponent = none) :
    cs = signChars n.negative ++ digitChars n.whole ++ fractionChars n.fraction := by
  obtain ⟨_, exponent, spelled, rfl⟩ := text
  rw [bare] at spelled
  cases spelled
  simp

theorem NumeralText.of_bare (proper : n.Proper) (bare : n.exponent = none) :
    NumeralText n (signChars n.negative ++ digitChars n.whole ++ fractionChars n.fraction) :=
  ⟨proper, [], bare ▸ .none, by simp⟩

theorem numeralText_digit (negative : Bool) (small : d < 10) :
    NumeralText ⟨negative, [d], none, none⟩ (signChars negative ++ [Nat.digitChar d]) := by
  have proper : Proper ⟨negative, [d], none, none⟩ := by
    refine ⟨?_, by simpa [AllDigits] using small, by simp, by simp⟩
    by_cases zero : d = 0
    · exact .inl (by rw [zero])
    · exact .inr ⟨d, [], rfl, zero⟩
  simpa [digitChars, fractionChars] using NumeralText.of_bare proper rfl

theorem NumeralText.moreWhole (text : NumeralText n cs) (integral : n.fraction = none)
    (bare : n.exponent = none) (nonzero : n.whole ≠ [0]) (small : d < 10) :
    NumeralText { n with whole := n.whole ++ [d] } (cs ++ [Nat.digitChar d]) := by
  have proper : Proper { n with whole := n.whole ++ [d] } := by
    refine ⟨.inr ?_, allDigits_concat text.proper.wholeDigits small, text.proper.fraction,
      text.proper.exponent⟩
    rcases text.proper.whole with zero | ⟨first, rest, whole, positive⟩
    · exact absurd zero nonzero
    · exact ⟨first, rest ++ [d], by simp [whole], positive⟩
  have longer := NumeralText.of_bare proper bare
  simpa [text.eq_of_bare bare, integral, digitChars, fractionChars] using longer

theorem NumeralText.point (text : NumeralText n cs) (integral : n.fraction = none)
    (bare : n.exponent = none) (small : d < 10) :
    NumeralText { n with fraction := some [d] } (cs ++ ['.'] ++ [Nat.digitChar d]) := by
  have proper : Proper { n with fraction := some [d] } := by
    refine ⟨text.proper.whole, text.proper.wholeDigits, ?_, text.proper.exponent⟩
    simpa [AllDigits] using small
  have longer := NumeralText.of_bare proper bare
  simpa [text.eq_of_bare bare, integral, digitChars, fractionChars] using longer

theorem NumeralText.moreFraction (text : NumeralText n cs) {ds : List Nat}
    (fraction : n.fraction = some ds) (bare : n.exponent = none) (small : d < 10) :
    NumeralText { n with fraction := some (ds ++ [d]) } (cs ++ [Nat.digitChar d]) := by
  have proper : Proper { n with fraction := some (ds ++ [d]) } := by
    refine ⟨text.proper.whole, text.proper.wholeDigits, ?_, text.proper.exponent⟩
    simpa using allDigits_concat (text.proper.fraction ds fraction).2 small
  have longer := NumeralText.of_bare proper bare
  simpa [text.eq_of_bare bare, fraction, digitChars, fractionChars] using longer

theorem NumeralText.exponent (text : NumeralText n cs) (bare : n.exponent = none) {mark : Char}
    (isMark : mark = 'e' ∨ mark = 'E') {down : Bool} {sign : List Char}
    (signs : (down, sign) ∈ [(false, []), (false, ['+']), (true, ['-'])]) (small : d < 10) :
    NumeralText { n with exponent := some (down, [d]) }
      (cs ++ mark :: (sign ++ [Nat.digitChar d])) := by
  have proper : Proper { n with exponent := some (down, [d]) } := by
    refine ⟨text.proper.whole, text.proper.wholeDigits, text.proper.fraction, ?_⟩
    simpa [AllDigits] using small
  refine ⟨proper, _, .some [d] isMark signs, ?_⟩
  simp [text.eq_of_bare bare, digitChars]

theorem NumeralText.moreExponent (text : NumeralText n cs) {down : Bool} {ds : List Nat}
    (exponent : n.exponent = some (down, ds)) (small : d < 10) :
    NumeralText { n with exponent := some (down, ds ++ [d]) } (cs ++ [Nat.digitChar d]) := by
  obtain ⟨proper, tail, spelled, rfl⟩ := text
  have longer : Proper { n with exponent := some (down, ds ++ [d]) } := by
    refine ⟨proper.whole, proper.wholeDigits, proper.fraction, ?_⟩
    simpa using allDigits_concat (proper.exponent (down, ds) exponent).2 small
  rw [exponent] at spelled
  cases spelled with
  | some _ isMark signs =>
    refine ⟨longer, _, .some (ds ++ [d]) isMark signs, ?_⟩
    simp [digitChars]

end Text

/-- What has been read of a numeral: its sign, a numeral that may end, or one that has to go on. -/
inductive Numbering : Begun → List Char → Prop where
  | minus : Numbering ⟨.minus, true, [], none, none⟩ ['-']
  | numeral {n : Numeral} {cs : List Char} (text : NumeralText n cs) : Numbering (begun n) cs
  | point {n : Numeral} {cs : List Char} (text : NumeralText n cs) (whole : n.fraction = none)
      (bare : n.exponent = none) :
      Numbering ⟨.point, n.negative, n.whole.reverse, none, none⟩ (cs ++ ['.'])
  | mark {n : Numeral} {cs : List Char} {mark : Char} (text : NumeralText n cs)
      (bare : n.exponent = none) (isMark : mark = 'e' ∨ mark = 'E') :
      Numbering ⟨.mark, n.negative, n.whole.reverse, n.fraction.map List.reverse, none⟩ (cs ++ [mark])
  | sign {n : Numeral} {cs : List Char} {mark : Char} {down : Bool} {sign : Char}
      (text : NumeralText n cs) (bare : n.exponent = none) (isMark : mark = 'e' ∨ mark = 'E')
      (signs : (down, [sign]) ∈ [(false, []), (false, ['+']), (true, ['-'])]) :
      Numbering ⟨.sign, n.negative, n.whole.reverse, n.fraction.map List.reverse, some (down, [])⟩
        (cs ++ [mark, sign])

theorem Numbering.extend_point {n : Numeral} {next : Begun} {cs : List Char} {c : Char}
    (text : NumeralText n cs) (integral : n.fraction = none) (bare : n.exponent = none)
    (extended : extend? ⟨.point, n.negative, n.whole.reverse, none, none⟩ c = some next) :
    Numbering next (cs ++ ['.'] ++ [c]) := by
  cases digit : digit? c with
  | none => simp [extend?, digit] at extended
  | some d =>
    obtain ⟨small, rfl⟩ := digit_of_digit? digit
    obtain rfl : _ = next := by simpa [extend?, digit] using extended
    have longer := Numbering.numeral (text.point integral bare small)
    simpa [begun, endPlace, fractionPlace, bare] using longer

theorem Numbering.extend_mark {n : Numeral} {next : Begun} {cs : List Char} {c mark : Char}
    (text : NumeralText n cs) (bare : n.exponent = none) (isMark : mark = 'e' ∨ mark = 'E')
    (extended : extend?
      ⟨.mark, n.negative, n.whole.reverse, n.fraction.map List.reverse, none⟩ c = some next) :
    Numbering next (cs ++ [mark] ++ [c]) := by
  cases digit : digit? c with
  | none =>
    have signed : (c = '+' ∨ c = '-') ∧ ⟨.sign, n.negative, n.whole.reverse,
        n.fraction.map List.reverse, some (c == '-', [])⟩ = next := by
      simpa [extend?, digit] using extended
    obtain ⟨sign, rfl⟩ := signed
    have signs : (c == '-', [c]) ∈ [(false, []), (false, ['+']), (true, ['-'])] := by
      rcases sign with rfl | rfl <;> decide
    simpa using Numbering.sign text bare isMark signs
  | some d =>
    obtain ⟨small, rfl⟩ := digit_of_digit? digit
    obtain rfl : _ = next := by simpa [extend?, digit] using extended
    have signs : (false, []) ∈ [(false, []), (false, ['+']), (true, ['-'])] := by simp
    have longer := Numbering.numeral (text.exponent bare isMark signs small)
    simpa [begun, endPlace] using longer

theorem Numbering.extend_sign {n : Numeral} {next : Begun} {cs : List Char} {c mark sign : Char}
    {down : Bool} (text : NumeralText n cs) (bare : n.exponent = none)
    (isMark : mark = 'e' ∨ mark = 'E')
    (signs : (down, [sign]) ∈ [(false, []), (false, ['+']), (true, ['-'])])
    (extended : extend? ⟨.sign, n.negative, n.whole.reverse, n.fraction.map List.reverse,
      some (down, [])⟩ c = some next) :
    Numbering next (cs ++ [mark, sign] ++ [c]) := by
  cases digit : digit? c with
  | none => simp [extend?, digit] at extended
  | some d =>
    obtain ⟨small, rfl⟩ := digit_of_digit? digit
    obtain rfl : _ = next := by simpa [extend?, digit] using extended
    have longer := Numbering.numeral (text.exponent bare isMark signs small)
    simpa [begun, endPlace] using longer

theorem Numbering.extend_exponent {n : Numeral} {next : Begun} {cs : List Char} {c : Char}
    (text : NumeralText n cs) {down : Bool} {ds : List Nat} (exponent : n.exponent = some (down, ds))
    (extended : extend? (begun n) c = some next) : Numbering next (cs ++ [c]) := by
  cases digit : digit? c with
  | none => simp [extend?, begun, endPlace, exponent, digit] at extended
  | some d =>
    obtain ⟨small, rfl⟩ := digit_of_digit? digit
    obtain rfl : _ = next := by simpa [extend?, begun, endPlace, exponent, digit] using extended
    have longer := Numbering.numeral (text.moreExponent exponent small)
    simpa [begun, endPlace, exponent] using longer

theorem Numbering.extend_fraction {n : Numeral} {next : Begun} {cs : List Char} {c : Char}
    (text : NumeralText n cs) {ds : List Nat} (fraction : n.fraction = some ds)
    (bare : n.exponent = none) (extended : extend? (begun n) c = some next) :
    Numbering next (cs ++ [c]) := by
  have place : (begun n).place = .fraction := by
    simp [begun, endPlace, fractionPlace, bare, fraction]
  cases digit : digit? c with
  | none =>
    obtain ⟨isMark, rfl⟩ : (c = 'e' ∨ c = 'E') ∧ { begun n with place := .mark } = next := by
      simpa [extend?, place, digit] using extended
    simpa [begun, bare] using Numbering.mark text bare isMark
  | some d =>
    obtain ⟨small, rfl⟩ := digit_of_digit? digit
    obtain rfl : _ = next := by simpa [extend?, place, digit] using extended
    have longer := Numbering.numeral (text.moreFraction fraction bare small)
    simpa [begun, endPlace, fractionPlace, bare, fraction] using longer

theorem Numbering.extend_whole {n : Numeral} {next : Begun} {cs : List Char} {c : Char}
    (text : NumeralText n cs) (integral : n.fraction = none) (bare : n.exponent = none)
    (extended : extend? (begun n) c = some next) : Numbering next (cs ++ [c]) := by
  have place : (begun n).place = wholePlace n.whole := by
    simp [begun, endPlace, fractionPlace, bare, integral]
  cases digit : digit? c with
  | none =>
    have either : (begun n).place = .zero ∨ (begun n).place = .whole := by
      rw [place, wholePlace]
      split <;> simp
    by_cases point : c = '.'
    · subst point
      obtain rfl : { begun n with place := .point } = next := by
        rcases either with either | either <;> simpa [extend?, either, digit] using extended
      simpa [begun, bare, integral] using Numbering.point text integral bare
    · obtain ⟨isMark, rfl⟩ : (c = 'e' ∨ c = 'E') ∧ { begun n with place := .mark } = next := by
        rcases either with either | either <;> simpa [extend?, either, digit, point] using extended
      simpa [begun, bare] using Numbering.mark text bare isMark
  | some d =>
    obtain ⟨small, rfl⟩ := digit_of_digit? digit
    by_cases zero : n.whole = [0]
    · simp [extend?, place, wholePlace, zero, digit] at extended
    · obtain rfl : _ = next := by simpa [extend?, place, wholePlace, zero, digit] using extended
      have longer := Numbering.numeral (text.moreWhole integral bare zero small)
      have nonzero : n.whole ++ [d] ≠ [0] := by
        rcases text.proper.whole with alone | ⟨first, rest, whole, positive⟩
        · exact absurd alone zero
        · simp [whole, positive]
      simpa [begun, endPlace, fractionPlace, wholePlace, bare, integral, nonzero] using longer

theorem Numbering.extend {b next : Begun} {cs : List Char} {c : Char} (numbering : Numbering b cs)
    (extended : extend? b c = some next) : Numbering next (cs ++ [c]) := by
  cases numbering with
  | minus =>
    cases digit : digit? c with
    | none => simp [extend?, digit] at extended
    | some d =>
      obtain ⟨small, rfl⟩ := digit_of_digit? digit
      rw [extend?_minus small] at extended
      obtain rfl := Option.some.inj extended
      exact .numeral (numeralText_digit true small)
  | point text integral bare => exact extend_point text integral bare extended
  | mark text bare isMark => exact extend_mark text bare isMark extended
  | sign text bare isMark signs => exact extend_sign text bare isMark signs extended
  | @numeral n cs text =>
    cases exponent : n.exponent with
    | some e => exact extend_exponent text exponent extended
    | none =>
      cases fraction : n.fraction with
      | some ds => exact extend_fraction text fraction exponent extended
      | none => exact extend_whole text fraction exponent extended

theorem Numbering.spells {b : Begun} {cs : List Char} {n : Node} (numbering : Numbering b cs)
    (node : numeralNode? b = some n) : Spells (.value n) cs := by
  cases numbering with
  | minus | point _ _ _ | mark _ _ _ | sign _ _ _ _ => simp [numeralNode?] at node
  | numeral text =>
    rw [numeralNode?_begun] at node
    obtain rfl := Option.some.inj node
    exact .numeral text

end Numerals

section Strings

inductive Quoting : Quote → Escape → List Char → Prop where
  | outside {l : List Piece} {cs : List Char} (pieces : Pieces l cs) :
      Quoting (Quote.ofPieces l) .outside cs
  | begun {l : List Piece} {cs : List Char} (pieces : Pieces l cs) :
      Quoting (Quote.ofPieces l) .begun (cs ++ ['\\'])
  | code {l : List Piece} {cs digits : List Char} {left n : Nat} (pieces : Pieces l cs)
      (length : digits.length + left = 3) (code : Piece.code? digits = some n) :
      Quoting (Quote.ofPieces l) (.code left n) (cs ++ '\\' :: 'u' :: digits)

/-- A character in a string goes on with it, ends it, or spoils the text. -/
inductive Quoted (stack : List Frame) (cs : List Char) (c : Char) : Machine → Prop where
  | further {q' : Quote} {escape : Escape} (quoting : Quoting q' escape (cs ++ [c])) :
      Quoted stack cs c ⟨stack, .quote q' escape⟩
  | closed {l : List Piece} (pieces : Pieces l cs) (quote : c = '"') :
      Quoted stack cs c (deliverText stack (Piece.node l))
  | fault : Quoted stack cs c (fault stack)

theorem Quoting.step {q : Quote} {escape : Escape} {cs : List Char} (quoting : Quoting q escape cs)
    (stack : List Frame) (c : Char) : Quoted stack cs c (inText stack q escape c) := by
  cases quoting with
  | @outside l _ pieces =>
    simp only [inText]
    split
    · rename_i plain
      rw [← Quote.add, ← Quote.ofPieces_concat]
      exact .further (.outside (.verbatim pieces plain))
    · split
      · rename_i quote
        rw [Quote.node_ofPieces]
        exact .closed pieces (by simpa using quote)
      · split
        · rename_i slash
          obtain rfl : c = '\\' := by simpa using slash
          exact .further (.begun pieces)
        · exact .fault
  | @begun l cs pieces =>
    simp only [inText]
    split
    · rename_i d escaped
      rw [← Quote.add, ← Quote.ofPieces_concat]
      have longer := Quoting.outside (.escape pieces escaped)
      exact .further (by simpa using longer)
    · split
      · rename_i code
        obtain rfl : c = 'u' := by simpa using code
        have none : ([] : List Char).length + 3 = 3 := rfl
        have longer := Quoting.code pieces none rfl
        exact .further (by simpa using longer)
      · exact .fault
  | @code l cs digits left n pieces length code =>
    cases digit : hexDigit? c with
    | none =>
      simp only [inText, digit]
      exact .fault
    | some d =>
      have longer : Piece.code? (digits ++ [c]) = some (n * 16 + d) := by
        rw [Piece.code?] at code ⊢
        simp [List.foldlM_append, code, digit]
      cases left with
      | zero =>
        simp only [inText, digit]
        have four : (digits ++ [c]).length = 4 := by simpa using length
        rw [← Quote.add, ← Quote.ofPieces_concat]
        have whole := Quoting.outside (.code pieces four longer)
        exact .further (by simpa using whole)
      | succ left =>
        simp only [inText, digit]
        have fewer : (digits ++ [c]).length + left = 3 := by
          simp only [List.length_append, List.length_singleton]
          omega
        have whole := Quoting.code pieces fewer longer
        exact .further (by simpa using whole)

end Strings

end GridSweep.Json.Machine
