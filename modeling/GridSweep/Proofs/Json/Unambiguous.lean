import GridSweep.Proofs.Json.Reading

/-!
Compact texts are unambiguous: the text of an array tells the texts of its items, the text of an object
the names and texts of its members. So canonical texts can be compared part by part
(`canonical_arr_inj`, `canonical_obj_inj`), whatever the numbers in them.
-/
namespace GridSweep.Json

open GridSweep.Decode Machine

theorem ofMachine_done (root : Node) (clean : Bool) (rest : List Char) :
    Document.ofMachine (rest.foldl step ⟨[], .done root clean⟩) =
      ⟨root, clean && rest.all isSpace⟩ := by
  induction rest generalizing clean with
  | nil => simp [Document.ofMachine]
  | cons c rest ih =>
    have stepped : step ⟨[], .done root clean⟩ c = ⟨[], .done root (clean && isSpace c)⟩ := rfl
    rw [List.foldl_cons, stepped, ih, List.all_cons, Bool.and_assoc]

theorem ofMachine_chars (j : Json) {rest : List Char} (delimited : Delimited rest) :
    Document.ofMachine ((chars .compact j ++ rest).foldl step start) =
      ⟨tree j, rest.all isSpace⟩ := by
  rw [start, Spacing.Blank.reads j .compact Spacing.blank_compact [] (fun _ => rfl) rest delimited]
  exact ofMachine_done (tree j) true rest

def numeralAlphabet : List Char := "-+.e0123456789".toList

theorem mem_numeralAlphabet {n : Numeral} (proper : n.Proper) {c : Char} (h : c ∈ n.chars) :
    c ∈ numeralAlphabet := by
  have digits {l : List Nat} (all : Numeral.AllDigits l) (hc : c ∈ Numeral.digitChars l) :
      c ∈ numeralAlphabet := by
    have each : ∀ d < 10, Nat.digitChar d ∈ numeralAlphabet := by decide
    obtain ⟨d, hd, rfl⟩ := List.mem_map.mp hc
    exact each d (all d hd)
  rw [Numeral.chars, Numeral.unsigned, List.mem_append, List.mem_append, List.mem_append] at h
  rcases h with sign | whole | fraction | exponent
  · cases negative : n.negative with
    | false =>
      rw [negative] at sign
      cases sign
    | true =>
      rw [negative] at sign
      obtain rfl := List.mem_singleton.mp sign
      decide
  · exact digits proper.wholeDigits whole
  · cases present : n.fraction with
    | none =>
      rw [present] at fraction
      cases fraction
    | some l =>
      rw [present, Numeral.fractionChars, List.mem_cons] at fraction
      rcases fraction with rfl | fraction
      · decide
      · exact digits (proper.fraction l present).2 fraction
  · cases present : n.exponent with
    | none =>
      rw [present] at exponent
      cases exponent
    | some e =>
      rw [present, Numeral.exponentChars, List.mem_cons, List.mem_cons] at exponent
      rcases exponent with rfl | rfl | exponent
      · decide
      · cases e.1 <;> decide
      · exact digits (proper.exponent e present).2 exponent

theorem not_isSpace_numeral {n : Numeral} (proper : n.Proper) {c : Char} (h : c ∈ n.chars) :
    isSpace c = false := by
  have visible : ∀ c ∈ numeralAlphabet, (!isSpace c) = true := List.all_eq_true.mp (by decide)
  simpa using visible c (mem_numeralAlphabet proper h)

theorem chars_last (sp : Spacing) (j : Json) :
    ∃ first last, chars sp j = first ++ [last] ∧ isSpace last = false := by
  cases j with
  | null => exact ⟨['n', 'u', 'l'], 'l', rfl, rfl⟩
  | bool b =>
    cases b with
    | false => exact ⟨['f', 'a', 'l', 's'], 'e', rfl, rfl⟩
    | true => exact ⟨['t', 'r', 'u'], 'e', rfl, rfl⟩
  | str s => exact ⟨_, '"', by rw [chars, quoted], rfl⟩
  | arr items => exact ⟨_, ']', by rw [chars], rfl⟩
  | obj members => exact ⟨_, '\x7d', by rw [chars], rfl⟩
  | num n =>
    obtain ⟨c, rest, shape, _⟩ := chars_head sp (num n) []
    have nonempty : chars sp (num n) ≠ [] := shape ▸ List.cons_ne_nil c rest
    have visible : ∀ c ∈ chars sp (num n), isSpace c = false := by
      intro c hc
      rw [chars, n.text_eq_chars] at hc
      exact not_isSpace_numeral n.proper_numeral hc
    exact ⟨_, _, (List.dropLast_concat_getLast nonempty).symm, visible _ (List.getLast_mem nonempty)⟩

theorem eq_of_prefix {a b : Json} {more rest : List Char}
    (longer : chars .compact b = chars .compact a ++ more) (delimited : Delimited (more ++ rest)) :
    more = [] := by
  cases more with
  | nil => rfl
  | cons c more =>
    have delimited' : Delimited (c :: more) := by
      intro d later same
      cases same
      exact delimited c (more ++ rest) rfl
    -- The text of b is that of a and then blanks, but it does not end in a blank.
    have read := ofMachine_chars a delimited'
    rw [← longer] at read
    have whole := ofMachine_chars b delimited_nil
    rw [List.append_nil, read] at whole
    have blank : (c :: more).all isSpace = true := congrArg Document.clean whole
    obtain ⟨first, last, ends, visible⟩ := chars_last .compact b
    have nonempty := List.cons_ne_nil c more
    have lasts := congrArg List.getLast? (longer.symm.trans ends)
    rw [List.getLast?_append, List.getLast?_concat, List.getLast?_eq_some_getLast nonempty,
      Option.some_or] at lasts
    have blankLast := List.all_eq_true.mp blank _ (List.getLast_mem nonempty)
    rw [Option.some.inj lasts, visible] at blankLast
    cases blankLast

/-- Where the text of a value ends does not depend on what may follow it. -/
theorem chars_append_inj {a b : Json} {rest rest' : List Char} (delimited : Delimited rest)
    (delimited' : Delimited rest')
    (h : chars .compact a ++ rest = chars .compact b ++ rest') :
    chars .compact a = chars .compact b ∧ rest = rest' := by
  rcases List.append_eq_append_iff.mp h with ⟨more, longer, split⟩ | ⟨more, longer, split⟩
  · have none := eq_of_prefix longer (split ▸ delimited)
    rw [none, List.append_nil] at longer
    rw [none] at split
    exact ⟨longer.symm, split⟩
  · have none := eq_of_prefix longer (split ▸ delimited')
    rw [none, List.append_nil] at longer
    rw [none] at split
    exact ⟨longer, split.symm⟩

/-- The end of a string does not depend on what follows it at all. -/
theorem quoted_append_inj {s t : String} {rest rest' : List Char}
    (h : quoted s ++ rest = quoted t ++ rest') : s = t ∧ rest = rest' := by
  have read (u : String) (more : List Char) :
      (Document.ofMachine ((quoted u ++ more).foldl step start)).root = .str u := by
    rw [List.foldl_append, @foldl_quoted start [] rfl]
    show (Document.ofMachine (more.foldl step ⟨[], .done (.str u) true⟩)).root = _
    rw [ofMachine_done]
  have same : Node.str s = .str t := by
    rw [← read s rest, h, read]
  obtain rfl := Node.str.inj same
  exact ⟨rfl, List.append_cancel_left h⟩

theorem inner_compact : Spacing.compact.inner = Spacing.compact := rfl

theorem gap_compact : Spacing.compact.gap.toList = [] := rfl

theorem itemChars_eq_map (sp : Spacing) (items : List Json) :
    itemChars sp items = items.map (chars sp) := by
  induction items with
  | nil => rfl
  | cons x rest ih => rw [itemChars, ih, List.map_cons]

def memberText (e : String × List Char) : List Char := quoted e.1 ++ ':' :: e.2

theorem memberChars_eq_map (members : List (String × Json)) :
    memberChars .compact members =
      (Entries.mapValues (chars .compact) members).map memberText := by
  induction members with
  | nil => rfl
  | cons e rest ih =>
    obtain ⟨name, x⟩ := e
    rw [memberChars, ih, List.append_assoc]
    rfl

/-- Two lists of parts after a first one, each part of a kind whose end shows, are told by the text
they make up with the closing bracket. -/
theorem further_inj {α β : Type} {text : α → List Char} {told : α → β} {closing : Char}
    (closes : IsDelimiter closing) (noComma : closing ≠ ',')
    (ends : ∀ x y : α, ∀ r r', Delimited r → Delimited r' → text x ++ r = text y ++ r' →
      told x = told y ∧ r = r') {l m : List α}
    (h : Spacing.compact.further (l.map text) ++ [closing] =
      Spacing.compact.further (m.map text) ++ [closing]) : l.map told = m.map told := by
  induction l generalizing m with
  | nil =>
    cases m with
    | nil => rfl
    | cons y m => exact absurd (List.cons.inj h).1 noComma
  | cons x l ih =>
    cases m with
    | nil => exact absurd (List.cons.inj h).1.symm noComma
    | cons y m =>
      have rests : text x ++ (Spacing.compact.further (l.map text) ++ [closing]) =
          text y ++ (Spacing.compact.further (m.map text) ++ [closing]) := by
        have tails := (List.cons.inj h).2
        simpa [inner_compact, gap_compact] using tails
      have delimited (k : List α) : Delimited (Spacing.compact.further (k.map text) ++ [closing]) := by
        have any := Spacing.blank_compact.delimited_further (k.map text) closes []
        rwa [List.append_nil] at any
      obtain ⟨same, later⟩ := ends x y _ _ (delimited l) (delimited m) rests
      rw [List.map_cons, List.map_cons, same, ih later]

/-- The same with the first part, which never begins like the end. -/
theorem parts_inj {α β : Type} {text : α → List Char} {told : α → β} {closing : Char}
    (closes : IsDelimiter closing) (noComma : closing ≠ ',')
    (begins : ∀ x : α, ∃ c rest, text x = c :: rest ∧ c ≠ closing)
    (ends : ∀ x y : α, ∀ r r', Delimited r → Delimited r' → text x ++ r = text y ++ r' →
      told x = told y ∧ r = r') {l m : List α}
    (h : Spacing.compact.parts (l.map text) ++ [closing] =
      Spacing.compact.parts (m.map text) ++ [closing]) : l.map told = m.map told := by
  have more (x : α) (l : List α) : Spacing.compact.parts ((x :: l).map text) ++ [closing] =
      text x ++ (Spacing.compact.further (l.map text) ++ [closing]) := by
    simp [Spacing.parts, inner_compact, gap_compact]
  cases l with
  | nil =>
    cases m with
    | nil => rfl
    | cons y m =>
      obtain ⟨c, rest, shape, other⟩ := begins y
      rw [more, shape] at h
      exact absurd (List.cons.inj h).1.symm other
  | cons x l =>
    cases m with
    | nil =>
      obtain ⟨c, rest, shape, other⟩ := begins x
      rw [more, shape] at h
      exact absurd (List.cons.inj h).1 other
    | cons y m =>
      refine further_inj (l := x :: l) (m := y :: m) closes noComma ends ?_
      rw [more, more] at h
      have with_ (x : α) (l : List α) :
          Spacing.compact.further ((x :: l).map text) ++ [closing] =
            ',' :: (text x ++ (Spacing.compact.further (l.map text) ++ [closing])) := by
        simp [Spacing.further, inner_compact, gap_compact]
      rw [with_, with_, h]

theorem chars_arr_inj {l m : List Json} :
    chars .compact (arr l) = chars .compact (arr m) ↔
      l.map (chars .compact) = m.map (chars .compact) := by
  rw [chars, chars, inner_compact, itemChars_eq_map, itemChars_eq_map]
  constructor
  · intro h
    refine parts_inj (.inr (.inr (.inl rfl))) (by decide) (fun x => ?_)
      (fun x y r r' => chars_append_inj) (List.cons.inj h).2
    obtain ⟨c, rest, shape, same⟩ := chars_head .compact x [.items []]
    refine ⟨c, rest, shape, ?_⟩
    rintro rfl
    cases same
  · intro h
    rw [h]

theorem chars_obj_inj {l m : List (String × Json)} :
    chars .compact (obj l) = chars .compact (obj m) ↔
      Entries.mapValues (chars .compact) l = Entries.mapValues (chars .compact) m := by
  rw [chars, chars, inner_compact, memberChars_eq_map, memberChars_eq_map]
  constructor
  · intro h
    have texts (k : List (String × Json)) : (Entries.mapValues (chars .compact) k).map memberText =
        k.map fun e => memberText (e.1, chars .compact e.2) := List.map_map
    have ends (e f : String × Json) (r r' : List Char) (hr : Delimited r) (hr' : Delimited r')
        (same : memberText (e.1, chars .compact e.2) ++ r =
          memberText (f.1, chars .compact f.2) ++ r') :
        (e.1, chars .compact e.2) = (f.1, chars .compact f.2) ∧ r = r' := by
      rw [memberText, memberText, List.append_assoc, List.append_assoc] at same
      obtain ⟨name, values⟩ := quoted_append_inj same
      obtain ⟨value, rests⟩ := chars_append_inj hr hr' (List.cons.inj values).2
      exact ⟨Prod.ext name value, rests⟩
    rw [texts, texts] at h
    exact parts_inj (.inr (.inr (.inr rfl))) (by decide)
      (fun e => ⟨'"', _, rfl, by decide⟩) ends (List.cons.inj h).2
  · intro h
    rw [h]

theorem toList_canonical (j : Json) : j.canonical.toList = chars .compact j.normal := by
  rw [canonical, toList_compact]

theorem canonical_eq_iff {a b : Json} :
    a.canonical = b.canonical ↔ chars .compact a.normal = chars .compact b.normal := by
  rw [← toList_canonical, ← toList_canonical, String.toList_inj]

theorem canonical_str_inj {s t : String} : (str s).canonical = (str t).canonical ↔ s = t := by
  rw [canonical_eq_iff]
  constructor
  · intro h
    have same : quoted s ++ [] = quoted t ++ [] := congrArg (· ++ []) h
    exact (quoted_append_inj same).1
  · rintro rfl
    rfl

theorem canonical_arr_inj {l m : List Json} :
    (arr l).canonical = (arr m).canonical ↔ l.map canonical = m.map canonical := by
  have texts (k : List Json) : (k.map canonical).map String.toList =
      (k.map normal).map (chars .compact) := by
    rw [List.map_map, List.map_map]
    exact List.map_congr_left fun j _ => toList_canonical j
  rw [canonical_eq_iff, normal, normal, chars_arr_inj, normalItems_eq_map, normalItems_eq_map,
    ← texts, ← texts]
  exact List.map_inj_right fun a b same => String.toList_inj.mp same

/-- Objects have the same canonical text when under every name they have members with the same
canonical text, or none. -/
theorem canonical_obj_inj {l m : List (String × Json)} (hl : (l.map Prod.fst).Nodup)
    (hm : (m.map Prod.fst).Nodup) :
    (obj l).canonical = (obj m).canonical ↔
      ∀ name, (Entries.find? name l).map canonical = (Entries.find? name m).map canonical := by
  have texts (k : List (String × Json)) :
      Entries.mapValues (chars .compact) (sorted (normalMembers k)) =
        (SortedTable.ofList (Entries.mapValues (fun x => x.canonical.toList) k)).entries := by
    have twice : Entries.mapValues (chars .compact) (Entries.mapValues normal k) =
        Entries.mapValues (fun x => x.canonical.toList) k := by
      rw [Entries.mapValues, Entries.mapValues, List.map_map]
      exact List.map_congr_left fun e _ => congrArg (Prod.mk e.1) (toList_canonical e.2).symm
    rw [normalMembers_eq_mapValues, sorted, ← SortedTable.ofList_mapValues, twice]
  have found {k : List (String × Json)} (hk : (k.map Prod.fst).Nodup) (name : String) :
      Entries.find? name
        (SortedTable.ofList (Entries.mapValues (fun x => x.canonical.toList) k)).entries =
          ((Entries.find? name k).map canonical).map String.toList := by
    have keys : ((Entries.mapValues (fun x => x.canonical.toList) k).map Prod.fst).Nodup := by
      rwa [Entries.keys_mapValues]
    rw [SortedTable.find?_ofList_of_distinct keys, Entries.find?_mapValues, Option.map_map]
    rfl
  rw [canonical_eq_iff, normal, normal, chars_obj_inj, texts, texts]
  constructor
  · intro h name
    have same := congrArg (Entries.find? name) h
    rw [found hl, found hm] at same
    exact Option.map_injective (fun a b eq => String.toList_inj.mp eq) same
  · intro h
    refine Entries.ext_of_ascending (SortedTable.ofList _).ascending
      (SortedTable.ofList _).ascending fun name => ?_
    rw [found hl, found hm, h]

theorem canonical_ofEntries_inj {α : Type} (encode : α → Json) (s t : Table α) :
    (ofEntries encode s.entries).canonical = (ofEntries encode t.entries).canonical ↔
      ∀ name, (s.find? name).map (fun x => (encode x).canonical) =
        (t.find? name).map fun x => (encode x).canonical := by
  have keys (u : Table α) : ((Entries.mapValues encode u.entries).map Prod.fst).Nodup := by
    rw [Entries.keys_mapValues]
    exact u.distinct
  have found (u : Table α) (name : String) :
      (Entries.find? name (Entries.mapValues encode u.entries)).map canonical =
        (u.find? name).map fun x => (encode x).canonical := by
    rw [Entries.find?_mapValues, Option.map_map]
    rfl
  refine (canonical_obj_inj (keys s) (keys t)).trans (forall_congr' fun name => ?_)
  rw [found, found]

theorem canonical_single_inj {name other : String} {x y : Json} :
    (obj [(name, x)]).canonical = (obj [(other, y)]).canonical ↔
      name = other ∧ x.canonical = y.canonical := by
  have alone (key : String) (z : Json) : ([(key, z)].map Prod.fst).Nodup :=
    List.pairwise_singleton _ key
  rw [canonical_obj_inj (alone name x) (alone other y)]
  constructor
  · intro h
    have found := h name
    by_cases same : other = name
    · simpa [Entries.find?, same] using found
    · simp [Entries.find?, same] at found
  · rintro ⟨rfl, same⟩ key
    by_cases found : name = key <;> simp [Entries.find?, found, same]

theorem canonical_pair_inj {a b : String} (apart : a ≠ b) {x y x' y' : Json} :
    (obj [(a, x), (b, y)]).canonical = (obj [(a, x'), (b, y')]).canonical ↔
      x.canonical = x'.canonical ∧ y.canonical = y'.canonical := by
  have distinct (v w : Json) : ([(a, v), (b, w)].map Prod.fst).Nodup := by simp [apart]
  rw [canonical_obj_inj (distinct x y) (distinct x' y')]
  constructor
  · intro h
    have first := h a
    have second := h b
    simp [Entries.find?] at first
    simp [Entries.find?, apart] at second
    exact ⟨first, second⟩
  · rintro ⟨first, second⟩ name
    by_cases here : a = name
    · simp [Entries.find?, here, first]
    · by_cases there : b = name <;> simp [Entries.find?, here, there, second]

end GridSweep.Json
