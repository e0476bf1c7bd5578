/-!
Cutting a text at every separator and joining parts again. A text without separators is one
part, so there is always at least one; joining the parts gives the text back.
-/

namespace MessageCatalog.Text

variable {α : Type}

/-- The parts of a text between the characters, or bytes, that `isSeparator` holds of. -/
def parts (isSeparator : α → Bool) : List α → List (List α)
  | [] => [[]]
  | c :: rest =>
    if isSeparator c then [] :: parts isSeparator rest
    else match parts isSeparator rest with
      | [] => [[c]]
      | first :: others => (c :: first) :: others

def join (separator : α) : List (List α) → List α
  | [] => []
  | [only] => only
  | first :: second :: others => first ++ separator :: join separator (second :: others)

theorem parts_ne_nil (isSeparator : α → Bool) (cs : List α) :
    parts isSeparator cs ≠ [] := by
  cases cs with
  | nil => simp [parts]
  | cons c rest =>
      unfold parts
      split
      · simp
      · split <;> simp

theorem join_parts [BEq α] [LawfulBEq α] (separator : α) (cs : List α) :
    join separator (parts (· == separator) cs) = cs := by
  induction cs with
  | nil => rfl
  | cons c rest ih =>
      unfold parts
      cases split : parts (· == separator) rest with
      | nil => exact absurd split (parts_ne_nil _ rest)
      | cons first others =>
          rw [split] at ih
          by_cases hit : c = separator
          · simp only [hit, beq_self_eq_true, if_true, join, ih, List.nil_append]
          · simp only [beq_iff_eq, hit, if_false]
            cases others with
            | nil => simpa [join] using ih
            | cons second others => simpa [join] using ih

end MessageCatalog.Text
