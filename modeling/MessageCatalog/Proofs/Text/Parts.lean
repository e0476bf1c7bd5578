import Mathlib.Data.List.Basic
import MessageCatalog.Text.Parts

/-!
Cutting and joining undo one another: the parts of a text are the only list of texts without
separators that is joined into it.
-/

namespace MessageCatalog.Text

variable {α : Type}

section Cutting

variable {isSeparator : α → Bool}

theorem not_isSeparator_of_mem_parts {text part : List α} (member : part ∈ parts isSeparator text) :
    ∀ c ∈ part, isSeparator c = false := by
  induction text generalizing part with
  | nil =>
      obtain rfl : part = [] := by simpa [parts] using member
      exact List.forall_mem_nil _
  | cons c rest ih =>
      rw [parts] at member
      split at member
      · rcases List.mem_cons.mp member with rfl | later
        · exact List.forall_mem_nil _
        · exact ih later
      · rename_i plain
        split at member
        · rename_i impossible
          exact absurd impossible (parts_ne_nil isSeparator rest)
        · rename_i first others cut
          rw [cut] at ih
          rcases List.mem_cons.mp member with rfl | later
          · refine List.forall_mem_cons.mpr ⟨by simpa using plain, ih List.mem_cons_self⟩
          · exact ih (List.mem_cons_of_mem _ later)

theorem parts_of_plain {text : List α} (plain : ∀ c ∈ text, isSeparator c = false) :
    parts isSeparator text = [text] := by
  induction text with
  | nil => rfl
  | cons c rest ih =>
      obtain ⟨first, later⟩ := List.forall_mem_cons.mp plain
      rw [parts, first, ih later]
      rfl

theorem parts_append_separator (isSeparator : α → Bool) (front back : List α) {separator : α}
    (separates : isSeparator separator = true) :
    parts isSeparator (front ++ separator :: back) =
      parts isSeparator front ++ parts isSeparator back := by
  induction front with
  | nil => simp [parts, separates]
  | cons c rest ih =>
      rw [List.cons_append, parts, parts, ih]
      split
      · rfl
      · cases cut : parts isSeparator rest with
        | nil => exact absurd cut (parts_ne_nil isSeparator rest)
        | cons first others => rfl

/-- The first part is the whole text, or what stands in front of the first separator. -/
theorem parts_eq_cons {text first : List α} {others : List (List α)}
    (cut : parts isSeparator text = first :: others) :
    text = first ∧ others = [] ∨
      ∃ separator rest, isSeparator separator = true ∧ text = first ++ separator :: rest ∧
        parts isSeparator rest = others := by
  induction text generalizing first with
  | nil =>
      obtain ⟨rfl, rfl⟩ : [] = first ∧ [] = others := by simpa [parts] using cut
      exact .inl ⟨rfl, rfl⟩
  | cons c rest ih =>
      rw [parts] at cut
      split at cut
      · next separates =>
          obtain ⟨rfl, rfl⟩ := List.cons.inj cut
          exact .inr ⟨c, rest, separates, rfl, rfl⟩
      · split at cut
        · next impossible => exact absurd impossible (parts_ne_nil isSeparator rest)
        · next start behind later =>
            obtain ⟨rfl, rfl⟩ := List.cons.inj cut
            rcases ih later with ⟨rfl, rfl⟩ | ⟨separator, ending, separates, rfl, behindCut⟩
            · exact .inl ⟨rfl, rfl⟩
            · exact .inr ⟨separator, ending, separates, rfl, behindCut⟩

theorem infix_of_mem_parts {text part : List α} (member : part ∈ parts isSeparator text) :
    part <:+: text := by
  generalize cut : parts isSeparator text = all at member
  induction all generalizing text with
  | nil => exact absurd member List.not_mem_nil
  | cons first others ih =>
      rcases parts_eq_cons cut with ⟨rfl, rfl⟩ | ⟨separator, rest, _, rfl, later⟩
      · obtain rfl := List.mem_singleton.mp member
        exact List.infix_rfl
      · rcases List.mem_cons.mp member with rfl | behind
        · exact (List.prefix_append _ _).isInfix
        · exact (ih later behind).trans ⟨first ++ [separator], [], by simp⟩

theorem mem_part_of_mem {text : List α} {c : α} (member : c ∈ text) :
    isSeparator c = true ∨ ∃ part ∈ parts isSeparator text, c ∈ part := by
  generalize cut : parts isSeparator text = all
  induction all generalizing text with
  | nil => exact absurd cut (parts_ne_nil isSeparator text)
  | cons first others ih =>
      rcases parts_eq_cons cut with ⟨rfl, rfl⟩ | ⟨separator, rest, separates, rfl, later⟩
      · exact .inr ⟨text, List.mem_singleton_self text, member⟩
      · rcases List.mem_append.mp member with inFirst | behind
        · exact .inr ⟨first, List.mem_cons_self, inFirst⟩
        · rcases List.mem_cons.mp behind with rfl | inRest
          · exact .inl separates
          · refine (ih inRest later).imp_right ?_
            rintro ⟨part, among, inside⟩
            exact ⟨part, List.mem_cons_of_mem _ among, inside⟩

end Cutting

theorem join_cons (separator : α) (first : List α) {others : List (List α)} (more : others ≠ []) :
    join separator (first :: others) = first ++ separator :: join separator others := by
  obtain ⟨second, rest, rfl⟩ := List.exists_cons_of_ne_nil more
  rfl

/-- What follows the last of the joined texts follows the whole. -/
theorem join_concat_append (separator : α) (texts : List (List α)) (last ending : List α) :
    join separator (texts ++ [last ++ ending]) = join separator (texts ++ [last]) ++ ending := by
  induction texts with
  | nil => rfl
  | cons first rest ih =>
      rw [List.cons_append, List.cons_append, join_cons _ _ (by simp), join_cons _ _ (by simp), ih,
        List.append_assoc, List.cons_append]

variable [BEq α] [LawfulBEq α] {separator : α}

theorem parts_join {texts : List (List α)} (nonempty : texts ≠ [])
    (plain : ∀ text ∈ texts, separator ∉ text) :
    parts (· == separator) (join separator texts) = texts := by
  induction texts with
  | nil => exact absurd rfl nonempty
  | cons first others ih =>
      obtain ⟨firstPlain, othersPlain⟩ := List.forall_mem_cons.mp plain
      have whole : parts (· == separator) first = [first] := by
        apply parts_of_plain
        intro c member
        exact beq_eq_false_iff_ne.mpr fun same => firstPlain (same ▸ member)
      cases others with
      | nil => exact whole
      | cons second rest =>
          have later := ih (List.cons_ne_nil _ _) othersPlain
          have cut := parts_append_separator (· == separator) first
            (join separator (second :: rest)) (beq_self_eq_true separator)
          rw [join_cons _ _ (List.cons_ne_nil _ _), cut, whole, later, List.singleton_append]

theorem parts_eq_iff {text : List α} {texts : List (List α)} :
    parts (· == separator) text = texts ↔
      texts ≠ [] ∧ (∀ part ∈ texts, separator ∉ part) ∧ join separator texts = text := by
  constructor
  · rintro rfl
    refine ⟨parts_ne_nil _ text, ?_, join_parts separator text⟩
    intro part member among
    simpa using not_isSeparator_of_mem_parts member separator among
  · rintro ⟨nonempty, plain, rfl⟩
    exact parts_join nonempty plain

end MessageCatalog.Text
