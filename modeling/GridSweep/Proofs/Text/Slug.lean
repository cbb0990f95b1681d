import GridSweep.Text.Slug
import Mathlib.Data.List.Basic

namespace GridSweep

namespace Sha256

def hexDigits : List Char := "0123456789abcdef".toList

theorem hexDigit_mem {n : Nat} (small : n < 16) : hexDigit n ∈ hexDigits := by
  have all : ∀ n < 16, hexDigit n ∈ hexDigits := by decide
  exact all n small

theorem mem_hex {s : String} {c : Char} (digit : c ∈ (hex s).toList) : c ∈ hexDigits := by
  rw [hex, String.toList_ofList, List.mem_flatMap] at digit
  obtain ⟨b, _, digit⟩ := digit
  have small : b.toNat < 256 := b.toNat_lt
  simp only [hexByte, List.mem_cons, List.not_mem_nil, or_false] at digit
  rcases digit with rfl | rfl
  · exact hexDigit_mem (by omega)
  · exact hexDigit_mem (by omega)

theorem length_digest (bytes : List UInt8) : (digest bytes).length = 32 := by
  simp [digest, bytesOfWord]

theorem length_hex (s : String) : (hex s).toList.length = 64 := by
  simp [hex, hexByte, List.length_flatMap, length_digest]

end Sha256

namespace Slug

def isPlain (c : Char) : Bool := c.isLower || c.isDigit || c == '-' || c == '.' || c == '_'

structure Plain (name : String) : Prop where
  chars : ∀ c ∈ name.toList, isPlain c = true
  notDots : ∃ c ∈ name.toList, c ≠ '.'

theorem Plain.nonempty {name : String} (plain : Plain name) : name ≠ "" := by
  obtain ⟨c, mem, -⟩ := plain.notDots
  rintro rfl
  exact List.not_mem_nil mem

/-- What a name with a digest behind it looks like. -/
def Marked (name : String) : Prop :=
  ∃ head digits, name.toList = head ++ '-' :: digits ∧ digits.length = 12 ∧
    ∀ c ∈ digits, c ∈ Sha256.hexDigits

/-- No two names that get a digest get the same twelve digits of it. -/
def Apart (a b : String) : Prop := stem a ≠ a → stem b ≠ b → a ≠ b → suffix a ≠ suffix b

section Characters

variable {c : Char}

theorem isUpper_iff : c.isUpper = true ↔ 65 ≤ c.toNat ∧ c.toNat ≤ 90 := by
  have defined : c.isUpper = decide (65 ≤ c.val ∧ c.val ≤ 90) := rfl
  simp [defined, UInt32.le_iff_toNat_le, ← Char.toNat_val]

theorem isLower_iff : c.isLower = true ↔ 97 ≤ c.toNat ∧ c.toNat ≤ 122 := by
  have defined : c.isLower = (decide (97 ≤ c.val) && decide (c.val ≤ 122)) := rfl
  simp [defined, UInt32.le_iff_toNat_le, ← Char.toNat_val]

theorem isDigit_iff : c.isDigit = true ↔ 48 ≤ c.toNat ∧ c.toNat ≤ 57 := by
  simp [Char.isDigit, UInt32.le_iff_toNat_le, ← Char.toNat_val]

theorem toLower_isLower (upper : c.isUpper = true) : c.toLower.isLower = true := by
  have range := isUpper_iff.mp upper
  have within : 65 ≤ c.val ∧ c.val ≤ 90 := of_decide_eq_true upper
  have code : c.toLower.val = c.val + 32 := congrArg Char.val (dif_pos within)
  have shifted : c.toLower.toNat = c.toNat + 32 := by
    rw [← Char.toNat_val, code, UInt32.toNat_add, Char.toNat_val]
    simp
    omega
  apply isLower_iff.mpr
  omega

theorem isPlain_mapChar (c : Char) : isPlain (mapChar c) = true := by
  unfold mapChar
  split
  · rename_i kept
    simp only [Bool.or_eq_true] at kept
    simp only [isPlain, Bool.or_eq_true]
    tauto
  · split
    · rename_i upper
      simp [isPlain, toLower_isLower upper]
    · decide

theorem mapChar_eq_self (plain : isPlain c = true) : mapChar c = c := by
  unfold mapChar
  split
  · rfl
  · rename_i other
    have line : c = '_' := by simpa [isPlain, other] using plain
    subst line
    decide

theorem range_of_isPlain (plain : isPlain c = true) : 45 ≤ c.toNat ∧ c.toNat ≤ 122 := by
  simp only [isPlain, Bool.or_eq_true, isLower_iff, isDigit_iff, beq_iff_eq] at plain
  rcases plain with (((lower | digit) | rfl) | rfl) | rfl
  · omega
  · omega
  · decide
  · decide
  · decide

theorem isBlank_of_isPlain (plain : isPlain c = true) : isBlank c = false := by
  have range := range_of_isPlain plain
  simp only [isBlank, Char.toNat_val, Bool.or_eq_false_iff, Bool.and_eq_false_iff,
    decide_eq_false_iff_not, beq_eq_false_iff_ne]
  omega

end Characters

theorem isPlain_of_mem_hexDigits : ∀ c ∈ Sha256.hexDigits, isPlain c = true := by
  have all : Sha256.hexDigits.all isPlain = true := rfl
  exact List.all_eq_true.mp all

theorem trimmedChars_eq_self {cs : List Char} (none : ∀ c ∈ cs, isBlank c = false) :
    trimmedChars cs = cs := by
  have kept {ds : List Char} (none : ∀ c ∈ ds, isBlank c = false) : ds.dropWhile isBlank = ds := by
    cases ds with
    | nil => rfl
    | cons d ds => simp [none d]
  rw [trimmedChars, kept none, kept (by simpa using none), List.reverse_reverse]

theorem plain_fallback : Plain fallback where
  chars := List.all_eq_true.mp rfl
  notDots := ⟨'s', by decide, by decide⟩

theorem plain_stem (name : String) : Plain (stem name) := by
  unfold stem
  simp only
  split
  · exact plain_fallback
  · rename_i other
    constructor
    · simp only [String.toList_ofList, List.mem_map]
      rintro _ ⟨c, _, rfl⟩
      exact isPlain_mapChar c
    · simpa using other

theorem stem_eq_self {name : String} (plain : Plain name) : stem name = name := by
  obtain ⟨chars, notDots⟩ := plain
  have kept : (trimmedChars name.toList).map mapChar = name.toList := by
    rw [trimmedChars_eq_self fun c mem => isBlank_of_isPlain (chars c mem)]
    exact (List.map_congr_left fun c mem => mapChar_eq_self (chars c mem)).trans (List.map_id' _)
  have other : name.toList.all (· == '.') = false := by simpa using notDots
  simp [stem, kept, other]

theorem stem_eq_self_iff {name : String} : stem name = name ↔ Plain name := by
  constructor
  · intro same
    rw [← same]
    exact plain_stem name
  · exact stem_eq_self

variable {a b name : String}

def under (digest : String → String) (name : String) : String :=
  if stem name = name then name
  else stem name ++ "-" ++ String.ofList ((digest name).toList.take 12)

theorem under_sha256 : under Sha256.hex = ofName := rfl

/-- A digest in at least as many hexadecimal digits as a slug takes from it. -/
structure Hexadecimal (digest : String → String) : Prop where
  long (s : String) : 12 ≤ (digest s).toList.length
  digits (s : String) : ∀ c ∈ (digest s).toList, c ∈ Sha256.hexDigits

theorem hexadecimal_sha256 : Hexadecimal Sha256.hex where
  long s := by rw [Sha256.length_hex]; decide
  digits _ _ := Sha256.mem_hex

section Under

variable {digest : String → String}

theorem under_of_plain (plain : Plain name) : under digest name = name := by
  simp [under, stem_eq_self plain]

theorem toList_under (other : ¬Plain name) : (under digest name).toList =
    (stem name).toList ++ '-' :: (digest name).toList.take 12 := by
  simp [under, mt stem_eq_self_iff.mp other]

theorem marked_under (hexadecimal : Hexadecimal digest) (other : ¬Plain name) :
    Marked (under digest name) := by
  refine ⟨_, _, toList_under other, ?_, fun c mem => ?_⟩
  · rw [List.length_take]
    exact Nat.min_eq_left (hexadecimal.long name)
  · exact hexadecimal.digits name c (List.mem_of_mem_take mem)

theorem plain_under (hexadecimal : Hexadecimal digest) (name : String) :
    Plain (under digest name) := by
  by_cases plain : Plain name
  · rwa [under_of_plain plain]
  · have text : (under digest name).toList =
        (stem name).toList ++ '-' :: (digest name).toList.take 12 := toList_under plain
    constructor
    · intro c mem
      rw [text, List.mem_append, List.mem_cons] at mem
      rcases mem with mem | rfl | mem
      · exact (plain_stem name).chars c mem
      · decide
      · exact isPlain_of_mem_hexDigits c (hexadecimal.digits name c (List.mem_of_mem_take mem))
    · exact ⟨'-', by simp [text], by decide⟩

theorem under_eq_self_iff (hexadecimal : Hexadecimal digest) :
    under digest name = name ↔ Plain name := by
  constructor
  · intro same
    rw [← same]
    exact plain_under hexadecimal name
  · exact under_of_plain

theorem under_under (hexadecimal : Hexadecimal digest) (name : String) :
    under digest (under digest name) = under digest name :=
  under_of_plain (plain_under hexadecimal name)

end Under

theorem ofName_of_plain (plain : Plain name) : ofName name = name :=
  under_of_plain plain

theorem toList_ofName (other : ¬Plain name) :
    (ofName name).toList = (stem name).toList ++ '-' :: (suffix name).toList := by
  rw [← under_sha256, toList_under other, suffix, String.toList_ofList]

theorem length_suffix (name : String) : (suffix name).toList.length = 12 := by
  simp [suffix, Sha256.length_hex]

theorem marked_ofName (other : ¬Plain name) : Marked (ofName name) :=
  marked_under hexadecimal_sha256 other

theorem plain_ofName (name : String) : Plain (ofName name) := plain_under hexadecimal_sha256 name

theorem ofName_ofName (name : String) : ofName (ofName name) = ofName name :=
  under_under hexadecimal_sha256 name

theorem suffix_eq_of_ofName_eq (otherA : ¬Plain a) (otherB : ¬Plain b)
    (same : ofName a = ofName b) : suffix a = suffix b := by
  have text := congrArg String.toList same
  rw [toList_ofName otherA, toList_ofName otherB] at text
  have ends := (List.append_inj' text (by simp [length_suffix])).2
  exact String.toList_inj.mp (List.cons.inj ends).2

/-- Names of one kind, kept or not, have one slug only if they are one name. -/
theorem ofName_inj (apart : Apart a b) (kind : Plain a ↔ Plain b) :
    ofName a = ofName b ↔ a = b := by
  constructor
  · intro same
    by_cases plain : Plain a
    · rwa [ofName_of_plain plain, ofName_of_plain (kind.mp plain)] at same
    · have plainB := mt kind.mpr plain
      by_contra different
      -- Both slugs end in their digests, of one length.
      exact apart (mt stem_eq_self_iff.mp plain) (mt stem_eq_self_iff.mp plainB) different
        (suffix_eq_of_ofName_eq plain plainB same)
  · rintro rfl
    rfl

theorem ofName_eq_iff (apart : Apart a b) :
    ofName a = ofName b ↔ a = b ∨ a = ofName b ∨ b = ofName a := by
  constructor
  · intro same
    by_cases plainA : Plain a
    · rw [ofName_of_plain plainA] at same
      exact .inr (.inl same)
    · by_cases plainB : Plain b
      · rw [ofName_of_plain plainB] at same
        exact .inr (.inr same.symm)
      · exact .inl ((ofName_inj apart (by simp [plainA, plainB])).mp same)
  · rintro (rfl | taken | taken)
    · rfl
    · rw [taken, ofName_ofName]
    · rw [taken, ofName_ofName]

/-- A name that is the slug of another one shows the digest of that name. -/
theorem marked_of_eq_ofName (different : a ≠ b) (taken : a = ofName b) : Marked a := by
  by_cases plain : Plain b
  · exact absurd (taken.trans (ofName_of_plain plain)) different
  · rw [taken]
    exact marked_ofName plain

end Slug

end GridSweep
