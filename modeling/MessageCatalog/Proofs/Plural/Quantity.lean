import Mathlib
import MessageCatalog.Plural

/-!
Which quantities take which variant. Variants are chosen by comparing floating point numbers, where
the zeros of both signs are equal and what is no number is equal to nothing. Each comparison turns
out to hold of exactly two numbers, so the variant of a number can be told from the number alone.
-/

namespace MessageCatalog.Plural

open Float.Model UnpackedFloat

variable {quantity : Float}

theorem beq_zero_iff : (quantity == 0.0) = true ↔ quantity = 0.0 ∨ quantity = -0.0 := by
  rw [Float.beq_iff_ne_nan_and_eq]
  constructor
  · rintro ⟨_, _, same | ⟨_, impossible⟩ | ⟨minus, _⟩⟩
    · exact .inl same
    · exact absurd impossible (by decide +kernel)
    · exact .inr minus
  · rintro (rfl | rfl)
    · exact ⟨by decide +kernel, by decide +kernel, .inl rfl⟩
    · exact ⟨by decide +kernel, by decide +kernel, .inr (.inr ⟨rfl, rfl⟩)⟩

theorem beq_one_iff : (quantity == 1.0) = true ↔ quantity = 1.0 := by
  rw [Float.beq_iff_ne_nan_and_eq]
  constructor
  · rintro ⟨_, _, same | ⟨_, impossible⟩ | ⟨_, impossible⟩⟩
    · exact same
    · exact absurd impossible (by decide +kernel)
    · exact absurd impossible (by decide +kernel)
  · rintro rfl
    exact ⟨by decide +kernel, by decide +kernel, .inl rfl⟩

theorem toBitVec_toBits (quantity : Float) :
    quantity.toBits.toBitVec = UnpackedFloat.pack .binary64 quantity.toModel.unpack :=
  (pack_unpack_of_valid quantity.toModel.valid).symm

/-- The absolute value has the bits of the number, but for the sign. -/
theorem exists_pack_abs (unpacked : UnpackedFloat) :
    ∃ sign exponent mantissa,
      UnpackedFloat.pack .binary64 unpacked = packComponents .binary64 sign exponent mantissa ∧
      UnpackedFloat.pack .binary64 unpacked.abs =
        packComponents .binary64 .positive exponent mantissa := by
  cases unpacked with
  | notANumber => exact ⟨.positive, _, _, rfl, rfl⟩
  | infinity sign => exact ⟨sign, _, _, rfl, rfl⟩
  | zero sign => exact ⟨sign, _, _, rfl, rfl⟩
  | finite sign mantissa exponent positive =>
      simp only [UnpackedFloat.abs, UnpackedFloat.pack]
      split
      · exact ⟨sign, _, _, rfl, rfl⟩
      · split <;> exact ⟨sign, _, _, rfl, rfl⟩

theorem abs_eq_one_iff : quantity.abs = 1.0 ↔ quantity = 1.0 ∨ quantity = -1.0 := by
  constructor
  · intro one
    obtain ⟨sign, exponent, mantissa, own, absolute⟩ := exists_pack_abs quantity.toModel.unpack
    have bits : packComponents .binary64 .positive exponent mantissa =
        packComponents .binary64 .positive 1023 0 :=
      absolute.symm.trans (congrArg (fun number => number.toBits.toBitVec) one)
    -- Exponent and mantissa are those of one, and nothing but the sign is left open.
    have exponents := congrArg unpackExponent bits
    have mantissas := congrArg unpackMantissa bits
    rw [unpackExponent_packComponents, unpackExponent_packComponents] at exponents
    rw [unpackMantissa_packComponents, unpackMantissa_packComponents] at mantissas
    rw [← toBitVec_toBits, exponents, mantissas] at own
    simp only [← Float.toBits_inj, ← UInt64.toBitVec_inj, own]
    cases sign with
    | positive => exact .inl rfl
    | negative => exact .inr rfl
  · rintro (rfl | rfl) <;> rfl

/-- The place of the variant for a quantity. Here a quantity is equal to itself only, so that the
zeros are told apart. -/
def place (quantity : Float) : Nat :=
  if quantity = 0.0 ∨ quantity = -0.0 then 0
  else if quantity = 1.0 ∨ quantity = -1.0 then 1
  else 2

theorem variantIndex_eq_place (quantity : Float) : variantIndex quantity = place quantity := by
  simp only [variantIndex, place, beq_zero_iff, beq_one_iff, abs_eq_one_iff]

end MessageCatalog.Plural
