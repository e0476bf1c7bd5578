import MessageCatalog.Proofs.Json.CompactText
import MessageCatalog.Proofs.Tree.Image

/-!
Trees as texts. The text of a tree is read as that tree, message by message and in the same order,
unless the tree nests deeper than a text may.
-/

namespace MessageCatalog.Tree

open Json (Value)

/-- The tree below namespaces that hold one name each. -/
def within (names : List String) (tree : Tree) : Tree :=
  names.foldr (fun name inner => .nested ⟨[(name, inner)]⟩) tree

theorem depth_within (names : List String) (tree : Tree) :
    (within names tree).depth = names.length + tree.depth := by
  induction names with
  | nil => rw [List.length_nil, Nat.zero_add, within, List.foldr_nil]
  | cons name rest ih =>
      have outer : (within (name :: rest) tree).depth = 1 + max (within rest tree).depth 0 := rfl
      rw [outer, ih, List.length_cons]
      omega

theorem distinctNames_within (names : List String) {tree : Tree} (distinct : tree.DistinctNames) :
    (within names tree).DistinctNames := by
  induction names with
  | nil => exact distinct
  | cons name rest ih => exact ⟨List.nodup_singleton name, ih, trivial⟩

variable {tree : Tree}

theorem readFront?_jsonText (distinct : tree.DistinctNames) :
    Value.readFront? tree.jsonText =
      if tree.depth ≤ Json.maxDepth then some (tree.toJson, []) else none := by
  rw [jsonText, ← depth_toJson]
  exact Json.readFront?_compact (textual_toJson tree) ((distinctKeys_toJson_iff tree).mpr distinct)

theorem parse?_jsonText (distinct : tree.DistinctNames) :
    Value.parse? tree.jsonText =
      if tree.depth ≤ Json.maxDepth then some tree.toJson else none := by
  rw [jsonText, ← depth_toJson]
  exact Json.parse?_compact (textual_toJson tree) ((distinctKeys_toJson_iff tree).mpr distinct)

theorem ofJson_toJson (tree : Tree) : ofJson tree.toJson = .ok tree := ofJsonAt_toJson "" tree

theorem decode_jsonText (distinct : tree.DistinctNames) :
    Json.decode ofJson tree.jsonText =
      if tree.depth ≤ Json.maxDepth then .ok tree else .error .malformed := by
  rw [Json.decode, readFront?_jsonText distinct]
  by_cases shallow : tree.depth ≤ Json.maxDepth
  · rw [if_pos shallow, if_pos shallow]
    simp only [ofJson_toJson]
    rfl
  · rw [if_neg shallow, if_neg shallow]

/-- The text of a tree can be parsed when the tree nests at most as deep as a text may, and both the
value that is parsed and the text itself are then read as this very tree. -/
theorem jsonText_reads_back (distinct : tree.DistinctNames) :
    ((∃ value, Value.parse? tree.jsonText = some value) ↔ tree.depth ≤ 127) ∧
    (∀ value, Value.parse? tree.jsonText = some value → ofJson value = .ok tree) ∧
    (tree.depth ≤ 127 → Json.decode ofJson tree.jsonText = .ok tree) ∧
    (127 < tree.depth → Json.decode ofJson tree.jsonText = .error .malformed) := by
  have parsed : Value.parse? tree.jsonText = if tree.depth ≤ 127 then some tree.toJson else none :=
    parse?_jsonText distinct
  have decoded : Json.decode ofJson tree.jsonText =
      if tree.depth ≤ 127 then .ok tree else .error .malformed := decode_jsonText distinct
  refine ⟨?_, fun value read => ?_, fun shallow => ?_, fun deep => ?_⟩
  · rw [parsed]
    by_cases shallow : tree.depth ≤ 127 <;> simp [shallow]
  · rw [parsed] at read
    obtain ⟨_, rfl⟩ : tree.depth ≤ 127 ∧ tree.toJson = value := by simpa using read
    exact ofJson_toJson tree
  · rw [decoded, if_pos shallow]
  · rw [decoded, if_neg (Nat.not_le.mpr deep)]

/-- A list with a hole, an escape and an empty item, once as deep as a text may nest and once
deeper. -/
theorem jsonText_reads_back_at_limit :
    let tips : Tree := .list [none, some "\"é\n", some ""]
    let deepest := tips.within (List.replicate 126 "")
    let deeper := tips.within (List.replicate 127 "")
    deepest.DistinctNames ∧ deepest.depth = 127 ∧
      (∃ value, Value.parse? deepest.jsonText = some value ∧ ofJson value = .ok deepest) ∧
      Json.decode ofJson deepest.jsonText = .ok deepest ∧
      (¬∃ value, Value.parse? deeper.jsonText = some value) ∧
      Json.decode ofJson deeper.jsonText = .error .malformed := by
  intro tips deepest deeper
  have plain : tips.DistinctNames := trivial
  have distinct : deepest.DistinctNames := distinctNames_within _ plain
  have distinctBeyond : deeper.DistinctNames := distinctNames_within _ plain
  have limit : deepest.depth = 127 := by
    rw [depth_within, List.length_replicate]
    rfl
  have beyond : deeper.depth = 128 := by
    rw [depth_within, List.length_replicate]
    rfl
  obtain ⟨parses, reads, decodes, -⟩ := jsonText_reads_back distinct
  obtain ⟨refuses, -, -, fails⟩ := jsonText_reads_back distinctBeyond
  obtain ⟨value, parsed⟩ := parses.mpr (by omega)
  exact ⟨distinct, limit, ⟨value, parsed, reads value parsed⟩, decodes (by omega),
    fun found => absurd (refuses.mp found) (by omega), fails (by omega)⟩

end MessageCatalog.Tree
