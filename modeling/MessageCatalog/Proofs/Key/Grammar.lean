import Mathlib.Data.List.Forall2
import MessageCatalog.Key
import MessageCatalog.Proofs.Text.Parts

/-!
The grammar of keys. A part stands for its name alone, or for a name with an index in brackets
behind it; a part that ends in a closing bracket and is not of the second form stands for nothing.
A text is a key when each of its parts stands for a segment.
-/

namespace MessageCatalog

def EndsInBracket (name : String) : Prop := name.toList.getLast? = some ']'

instance (name : String) : Decidable (EndsInBracket name) :=
  inferInstanceAs (Decidable (name.toList.getLast? = some ']'))

namespace Segment

/-- The ways to write a segment. An index may have leading zeros. -/
inductive Spelled : List Char → Segment → Prop
  | plain {name} : ¬EndsInBracket name → Spelled name.toList ⟨name, none⟩
  | indexed {name digits index} : Text.index? digits = some index →
      Spelled (name.toList ++ '[' :: digits ++ [']']) ⟨name, some index⟩

theorem not_mem_digits {digits : List Char} {index : Nat} (read : Text.index? digits = some index)
    {c : Char} (mark : c.isDigit = false) : c ∉ digits := by
  intro member
  have digital := (Text.index?_eq_some_iff.mp read).2.1 c member
  rw [mark] at digital
  cases digital

theorem parse?_of_open {name : String} (unclosed : ¬EndsInBracket name) :
    parse? name.toList = some ⟨name, none⟩ := by
  unfold parse?
  split
  · rename_i inner reversed
    rw [EndsInBracket, List.getLast?_eq_head?_reverse, reversed] at unclosed
    exact absurd rfl unclosed
  · rw [String.ofList_toList]

/-- In a part that is closed by a bracket, only the last opening bracket counts. -/
theorem parse?_concat (head : List Char) :
    parse? (head ++ [']']) =
      match head.reverse.dropWhile (· ≠ '[') with
      | '[' :: name =>
        (Text.index? (head.reverse.takeWhile (· ≠ '[')).reverse).map fun index =>
          ⟨String.ofList name.reverse, some index⟩
      | _ => none := by
  have reversed : (head ++ [']']).reverse = ']' :: head.reverse := List.reverse_append
  unfold parse?
  split
  · next inner closed =>
      rw [reversed] at closed
      cases closed
      rfl
  · next unclosed => exact absurd reversed (unclosed _)

theorem parse?_indexed (name : String) {digits : List Char} (plain : '[' ∉ digits) :
    parse? (name.toList ++ '[' :: digits ++ [']']) =
      (Text.index? digits).map fun index => ⟨name, some index⟩ := by
  have unopened : ∀ c ∈ digits.reverse, (decide (c ≠ '[')) = true := by
    intro c member
    exact decide_eq_true fun same => plain (same ▸ List.mem_reverse.mp member)
  have reversed : (name.toList ++ '[' :: digits).reverse =
      digits.reverse ++ '[' :: name.toList.reverse := by simp
  rw [parse?_concat, reversed, List.dropWhile_append_of_pos unopened,
    List.takeWhile_append_of_pos unopened]
  simp

theorem parse?_eq_some_iff {part : List Char} {segment : Segment} :
    parse? part = some segment ↔ Spelled part segment := by
  constructor
  · intro parsed
    obtain ⟨name, rfl⟩ : ∃ name : String, part = name.toList := ⟨String.ofList part, by simp⟩
    by_cases closed : EndsInBracket name
    · obtain ⟨head, whole⟩ := List.getLast?_eq_some_iff.mp closed
      rw [whole] at parsed ⊢
      rw [parse?_concat] at parsed
      split at parsed
      · rename_i before opened
        obtain ⟨index, read, rfl⟩ := Option.map_eq_some_iff.mp parsed
        have cut : head.reverse.takeWhile (· ≠ '[') ++ head.reverse.dropWhile (· ≠ '[') =
            head.reverse := List.takeWhile_append_dropWhile
        rw [opened] at cut
        have written : head = (String.ofList before.reverse).toList ++
            '[' :: (head.reverse.takeWhile (· ≠ '[')).reverse := by
          have back := congrArg List.reverse cut
          simpa using back.symm
        rw [written]
        exact .indexed read
      · cases parsed
    · rw [parse?_of_open closed] at parsed
      cases parsed
      exact .plain closed
  · intro spelled
    cases spelled with
    | plain unclosed => exact parse?_of_open unclosed
    | indexed read =>
        rw [parse?_indexed _ (not_mem_digits read rfl), read]
        rfl

end Segment

namespace Key

theorem mapM_parse?_eq_some_iff {texts : List (List Char)} {segments : List Segment} :
    texts.mapM Segment.parse? = some segments ↔ List.Forall₂ Segment.Spelled texts segments := by
  induction texts generalizing segments with
  | nil =>
      rw [List.mapM_nil, List.forall₂_nil_left_iff]
      exact ⟨fun same => (Option.some.inj same).symm, fun same => same ▸ rfl⟩
  | cons part rest ih =>
      rw [List.forall₂_cons_left_iff, List.mapM_cons]
      simp only [Option.bind_eq_bind, Option.bind_eq_some_iff, Segment.parse?_eq_some_iff, ih]
      constructor
      · rintro ⟨segment, spelled, others, later, built⟩
        exact ⟨segment, others, spelled, later, (Option.some.inj built).symm⟩
      · rintro ⟨segment, others, spelled, later, rfl⟩
        exact ⟨segment, spelled, others, later, rfl⟩

/-- A text is a key just when it is parts without dots, joined by dots, that spell the segments. -/
theorem parse?_eq_some_iff {raw : String} {key : Key} :
    parse? raw = some key ↔ ∃ texts, List.Forall₂ Segment.Spelled texts key.segments ∧
      texts ≠ [] ∧ (∀ text ∈ texts, '.' ∉ text) ∧ Text.join '.' texts = raw.toList := by
  rw [parse?, Option.map_eq_some_iff]
  constructor
  · rintro ⟨segments, parsed, rfl⟩
    exact ⟨_, mapM_parse?_eq_some_iff.mp parsed, Text.parts_eq_iff.mp rfl⟩
  · rintro ⟨texts, spelled, joined⟩
    refine ⟨key.segments, ?_, rfl⟩
    rw [Text.parts_eq_iff.mpr joined]
    exact mapM_parse?_eq_some_iff.mpr spelled

end Key

end MessageCatalog
