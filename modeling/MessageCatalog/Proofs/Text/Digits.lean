import Mathlib.Algebra.Group.Nat.Defs
import Mathlib.Data.List.Induction
import MessageCatalog.Text.Digits

/-!
Numbers in digits. A number is read back from its own digits, and every run of digits that is read
as this number consists of the same digits behind some zeros.
-/

namespace MessageCatalog.Text

theorem digitsValue_toDigits (number : Nat) : digitsValue (Nat.toDigits 10 number) = number :=
  Nat.ofDigitChars_toDigits (by decide) (by decide)

theorem index?_toDigits {number : Nat} (small : number < 2 ^ 64) :
    index? (Nat.toDigits 10 number) = some number := by
  refine index?_eq_some_iff.mpr ⟨Nat.toDigits_ne_nil, fun c member => ?_,
    digitsValue_toDigits number, small⟩
  exact Nat.isDigit_of_mem_toDigits (by decide) (by decide) member

theorem digitsValue_concat (digits : List Char) (digit : Char) :
    digitsValue (digits ++ [digit]) = 10 * digitsValue digits + (digit.toNat - '0'.toNat) := by
  simp [digitsValue]

theorem toDigits_of_isDigit {digit : Char} (digital : digit.isDigit = true) :
    digit.toNat - '0'.toNat < 10 ∧ Nat.toDigits 10 (digit.toNat - '0'.toNat) = [digit] := by
  have range : 48 ≤ digit.toNat ∧ digit.toNat ≤ 57 := by
    simpa [Char.isDigit, UInt32.le_iff_toNat_le] using digital
  have zero : '0'.toNat = 48 := rfl
  have small : digit.toNat - '0'.toNat < 10 := by omega
  refine ⟨small, ?_⟩
  rw [Nat.toDigits_of_lt_base small, List.singleton_inj, ← Char.toNat_inj,
    Nat.toNat_digitChar_of_lt_ten small]
  omega

theorem exists_zeros {digits : List Char} (nonempty : digits ≠ [])
    (digital : ∀ c ∈ digits, c.isDigit = true) :
    ∃ zeros, digits = List.replicate zeros '0' ++ Nat.toDigits 10 (digitsValue digits) := by
  induction digits using List.reverseRecOn with
  | nil => exact absurd rfl nonempty
  | append_singleton digits last ih =>
      obtain ⟨earlier, lastDigital⟩ := List.forall_mem_append.mp digital
      obtain ⟨small, written⟩ := toDigits_of_isDigit (lastDigital last List.mem_cons_self)
      rw [digitsValue_concat]
      by_cases single : digits = []
      · subst single
        exact ⟨0, by rw [digitsValue, List.foldl_nil, Nat.mul_zero, Nat.zero_add, written]; rfl⟩
      · obtain ⟨zeros, split⟩ := ih single earlier
        by_cases zero : digitsValue digits = 0
        · -- So far there are zeros only, the last of them standing for the number.
          refine ⟨zeros + 1, ?_⟩
          rw [zero] at split
          rw [zero, Nat.mul_zero, Nat.zero_add, written, List.replicate_succ']
          exact congrArg (· ++ [last]) split
        · refine ⟨zeros, ?_⟩
          rw [← Nat.toDigits_append_toDigits (by decide) (Nat.pos_of_ne_zero zero) small, written,
            ← List.append_assoc, ← split]

theorem exists_zeros_of_index? {digits : List Char} {index : Nat}
    (read : index? digits = some index) :
    ∃ zeros, digits = List.replicate zeros '0' ++ Nat.toDigits 10 index := by
  obtain ⟨nonempty, digital, rfl, _⟩ := index?_eq_some_iff.mp read
  exact exists_zeros nonempty digital

end MessageCatalog.Text
