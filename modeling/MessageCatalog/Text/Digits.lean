/-!
Runs of decimal digits, and the indices that are written with them: a non-empty run of ASCII
digits, leading zeros allowed, whose value fits in 64 bits.
-/

namespace MessageCatalog.Text

def digitsValue (digits : List Char) : Nat :=
  digits.foldl (fun value digit => 10 * value + (digit.toNat - '0'.toNat)) 0

def indexLimit : Nat := Nat.pow 2 64

/-- Reads an index; any other character, no digit at all or a value beyond the limit is
refused. -/
def index? (digits : List Char) : Option Nat :=
  if digits.isEmpty || !digits.all Char.isDigit then none
  else if digitsValue digits < indexLimit then some (digitsValue digits)
  else none

theorem index?_eq_some_iff {digits : List Char} {value : Nat} :
    index? digits = some value ↔
      digits ≠ [] ∧ (∀ c ∈ digits, c.isDigit = true) ∧ digitsValue digits = value ∧
        value < indexLimit := by
  unfold index?
  by_cases plain : digits.isEmpty || !digits.all Char.isDigit
  · rw [if_pos plain]
    simp only [reduceCtorEq, false_iff, not_and]
    intro some_digit all_digits
    simp [some_digit] at plain
    obtain ⟨c, member, odd⟩ := plain
    simp [all_digits c member] at odd
  · rw [if_neg plain]
    simp only [Bool.or_eq_true, List.isEmpty_iff, Bool.not_eq_true', List.all_eq_false, not_or,
      not_exists, not_and, Bool.not_eq_true, Bool.not_eq_false] at plain
    obtain ⟨nonempty, digital⟩ := plain
    split
    · next small =>
        constructor
        · intro same
          cases same
          exact ⟨nonempty, digital, rfl, small⟩
        · intro ⟨_, _, same, _⟩
          exact congrArg some same
    · next large =>
        constructor
        · exact fun impossible => nomatch impossible
        · intro ⟨_, _, same, small⟩
          exact absurd (same ▸ small) large

end MessageCatalog.Text
