import Mathlib.Data.List.Forall2
import MessageCatalog.Proofs.Plural.Quantity
import MessageCatalog.Proofs.Text.Parts
import MessageCatalog.Proofs.Text.Trimming

/-!
The choice of a variant. Whatever blanks are put around the variants of a message, a quantity gets
the variant at its place, or the last one if there are fewer, without the blanks. A message has
always a variant to give, be it an empty one, and so is never returned as it stands for want of one.
-/

namespace MessageCatalog.Plural

variable {α : Type}

theorem getLast?_take_succ (items : List α) (index : Nat) :
    (items.take (index + 1)).getLast? = items[min index (items.length - 1)]? := by
  rw [List.getLast?_take, if_neg (Nat.succ_ne_zero index), Nat.add_sub_cancel,
    List.getLast?_eq_getElem?]
  by_cases inside : index < items.length
  · rw [Nat.min_eq_left (by omega), List.getElem?_eq_getElem inside]
    rfl
  · rw [Nat.min_eq_right (by omega), List.getElem?_eq_none (by omega), Option.none_or]

theorem exists_getElem?_min {items : List α} (nonempty : items ≠ []) (index : Nat) :
    ∃ item, items[min index (items.length - 1)]? = some item := by
  have positive : 0 < items.length := List.length_pos_iff.mpr nonempty
  exact ⟨_, List.getElem?_eq_getElem (by omega)⟩

theorem exists_getElem?_of_forall₂ {β : Type} {related : α → β → Prop} {left : List α}
    {right : List β} (pairs : List.Forall₂ related left right) {index : Nat} {item : β}
    (there : right[index]? = some item) :
    ∃ other, left[index]? = some other ∧ related other item := by
  obtain ⟨inside, rfl⟩ := List.getElem?_eq_some_iff.mp there
  have within : index < left.length := pairs.length_eq ▸ inside
  exact ⟨left[index], List.getElem?_eq_getElem within, pairs.get within inside⟩

/-- What stands between the bars decides: the one at the place of the quantity is there, and what
is chosen is that part without the blanks around it. -/
theorem getLast?_take_variants {message : String} {quantity : Float} {part : List Char}
    (there : (Text.parts (· == '|') message.toList)[min (place quantity)
      ((Text.parts (· == '|') message.toList).length - 1)]? = some part) :
    ((variants message.toList).take (variantIndex quantity + 1)).getLast? =
      some (Text.trim part) := by
  rw [getLast?_take_succ, variants, List.length_map, List.getElem?_map, variantIndex_eq_place, there]
  rfl

theorem select_eq {message : String} {quantity : Float} {variant : List Char}
    (chosen : ((variants message.toList).take (variantIndex quantity + 1)).getLast? =
      some variant) :
    select message quantity = String.ofList variant := by
  rw [select, chosen]

theorem exists_chosen (message : String) (quantity : Float) :
    ∃ part ∈ Text.parts (· == '|') message.toList,
      ((variants message.toList).take (variantIndex quantity + 1)).getLast? =
        some (Text.trim part) := by
  obtain ⟨part, there⟩ :=
    exists_getElem?_min (Text.parts_ne_nil (· == '|') message.toList) (place quantity)
  exact ⟨part, List.mem_of_getElem? there, getLast?_take_variants there⟩

/-- The variant at the place of the quantity, or the last one if there are fewer, without the blanks
around it. Every message is made of variants, so that one is always chosen from it, which is a part
of the message without a bar in it and without a blank at either end. -/
theorem selects_clamped_variant (quantity : Float) :
    (∀ texts padded : List (List Char), texts ≠ [] → (∀ text ∈ texts, '|' ∉ text) →
      List.Forall₂ Text.Padded padded texts →
      ∃ text variant, texts[min (place quantity) (texts.length - 1)]? = some text ∧
        Text.Padded text variant ∧ Text.Bare variant ∧
        select (String.ofList (Text.join '|' padded)) quantity = String.ofList variant) ∧
    ∀ message : String,
      (∃ texts, texts ≠ [] ∧ (∀ text ∈ texts, '|' ∉ text) ∧
        message = String.ofList (Text.join '|' texts)) ∧
      let variant := (select message quantity).toList
      '|' ∉ variant ∧ Text.Bare variant ∧ variant <:+: message.toList ∧
        ((variants message.toList).take (variantIndex quantity + 1)).getLast? = some variant := by
  constructor
  · intro texts padded nonempty plain around
    -- Blanks bring no bars with them, so the padded texts are what the message is cut into.
    have barless : ∀ part ∈ padded, '|' ∉ part := by
      intro part member
      obtain ⟨index, here⟩ := List.mem_iff_getElem?.mp member
      obtain ⟨text, there, pads⟩ := exists_getElem?_of_forall₂ around.flip here
      exact Text.Padded.not_mem pads rfl (plain text (List.mem_of_getElem? there))
    have some_padded : padded ≠ [] := by
      rintro rfl
      exact nonempty (List.forall₂_nil_left_iff.mp around)
    have cut : Text.parts (· == '|') (String.ofList (Text.join '|' padded)).toList = padded := by
      rw [String.toList_ofList, Text.parts_join some_padded barless]
    obtain ⟨text, there⟩ := exists_getElem?_min nonempty (place quantity)
    obtain ⟨part, padding, pads⟩ := exists_getElem?_of_forall₂ around there
    rw [← around.length_eq] at padding
    refine ⟨text, Text.trim text, there, Text.padded_trim text, Text.bare_trim text, ?_⟩
    rw [← Text.trim_of_padded pads]
    exact select_eq (getLast?_take_variants (by rw [cut]; exact padding))
  · intro message
    obtain ⟨part, member, chosen⟩ := exists_chosen message quantity
    have barless : ∀ text ∈ Text.parts (· == '|') message.toList, '|' ∉ text :=
      (Text.parts_eq_iff.mp rfl).2.1
    have within : Text.trim part <:+: part := (Text.padded_trim part).isInfix
    have variant : (select message quantity).toList = Text.trim part := by
      rw [select_eq chosen, String.toList_ofList]
    refine ⟨⟨_, Text.parts_ne_nil (· == '|') message.toList, barless, ?_⟩, ?_⟩
    · rw [Text.join_parts, String.ofList_toList]
    · rw [variant]
      exact ⟨fun bar => barless part member (within.subset bar), Text.bare_trim part,
        within.trans (Text.infix_of_mem_parts member), chosen⟩

/-- The second variant is made of blanks. What is no number takes the third. -/
theorem selects_clamped_variant_next_to_blank_one :
    let texts : List (List Char) := ["no file", "", "many files"].map String.toList
    let padded : List (List Char) :=
      ["no file ", "\u00a0\t", " many files\u3000"].map String.toList
    (texts ≠ [] ∧ (∀ text ∈ texts, '|' ∉ text) ∧ List.Forall₂ Text.Padded padded texts) ∧
      select (String.ofList (Text.join '|' padded)) (-1.0) = "" ∧
      select (String.ofList (Text.join '|' padded)) (0.0 / 0.0) = "many files" := by
  intro texts padded
  have nonempty : texts ≠ [] := List.cons_ne_nil _ _
  have plain : ∀ text ∈ texts, '|' ∉ text := by decide
  have around : List.Forall₂ Text.Padded padded texts :=
    .cons ⟨[], [' '], by decide, by decide, rfl⟩
      (.cons ⟨['\u00a0', '\t'], [], by decide, by decide, rfl⟩
        (.cons ⟨[' '], ['\u3000'], by decide, by decide, rfl⟩ .nil))
  have selected {quantity : Float} {text : List Char}
      (there : texts[min (place quantity) (texts.length - 1)]? = some text) :
      select (String.ofList (Text.join '|' padded)) quantity = String.ofList (Text.trim text) := by
    obtain ⟨own, variant, ownThere, pads, bare, selected⟩ :=
      (selects_clamped_variant quantity).1 texts padded nonempty plain around
    obtain rfl : own = text := Option.some.inj (ownThere.symm.trans there)
    rw [selected, Text.trim_eq_iff.mpr ⟨pads, bare⟩]
  have second : texts[min (place (-1.0)) (texts.length - 1)]? = some [] := by decide +kernel
  have third : texts[min (place (0.0 / 0.0)) (texts.length - 1)]? = some "many files".toList := by
    decide +kernel
  exact ⟨⟨nonempty, plain, around⟩, selected second, selected third⟩

end MessageCatalog.Plural
