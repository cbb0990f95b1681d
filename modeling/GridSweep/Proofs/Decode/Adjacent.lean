import GridSweep.Decode.Variant
import GridSweep.Proofs.Decode.Variant

namespace GridSweep.Decode

variable {α : Type} {tag content variant expected : String} {known : List String}
  {read : String → Decoder α} {c inner : Context} {x : Json} {a : α}

theorem variantTag_str (json : c.origin ≠ .yaml) (listed : variant ∈ known) :
    variantTag known c (.str variant) = pure variant := by
  have name : variantName known c (.str variant) = pure variant :=
    if_pos (List.contains_iff_mem.mpr listed)
  obtain ⟨origin, depth⟩ := c
  cases origin with
  | yaml => exact absurd rfl json
  | text | value | aside =>
    simp only [variantTag, enumeration, behind, name, pure_bind]
    rfl

theorem relevant_nil : relevant tag content c [] = pure none := rfl

theorem relevant_tag (n : Node) (rest : List (Node × Node)) :
    relevant tag content c ((.str tag, n) :: rest) = pure (some (true, n, rest)) := by
  rw [relevant, Record.fieldName_own List.mem_cons_self, pure_bind]
  simp only [beq_self_eq_true]

theorem relevant_content (apart : tag ≠ content) (n : Node) (rest : List (Node × Node)) :
    relevant tag content c ((.str content, n) :: rest) = pure (some (false, n, rest)) := by
  have other : (content == tag) = false := beq_eq_false_iff_ne.mpr apart.symm
  rw [relevant, Record.fieldName_own (by simp), pure_bind]
  simp only [other]

theorem adjacentlyTagged_tagFirst (entered : c.enter = pure inner) (json : inner.origin ≠ .yaml)
    (apart : tag ≠ content) (listed : variant ∈ known)
    (reads : read variant inner (.ofJson x) = pure a) :
    adjacentlyTagged expected tag content known read c
      (.ofJson (.obj [(tag, .str variant), (content, x)])) = pure a := by
  simp only [Node.ofJson, Node.ofMembers, adjacentlyTagged, behind, Node.body, entered, pure_bind,
    adjacentMembers, relevant_tag, variantTag_str json listed, relevant_content apart, reads,
    noneRelevant, relevant_nil]

theorem Context.not_yaml_of_unlimited (unlimited : c.limited = false) : c.origin ≠ .yaml := by
  intro yaml
  simp [Context.limited, yaml] at unlimited

theorem adjacentlyTagged_contentFirst (unlimited : c.limited = false) (apart : tag ≠ content)
    (listed : variant ∈ known) (reads : read variant c.setAside (.ofJson x) = pure a) :
    adjacentlyTagged expected tag content known read c
      (.ofJson (.obj [(content, x), (tag, .str variant)])) = pure a := by
  have json := Context.not_yaml_of_unlimited unlimited
  simp only [Node.ofJson, Node.ofMembers, adjacentlyTagged, behind, Node.body,
    Context.enter_of_unlimited unlimited, pure_bind, adjacentMembers, relevant_content apart,
    aside_ofJson unlimited, relevant_tag, variantTag_str json listed, reads, noneRelevant, relevant_nil]

end GridSweep.Decode
