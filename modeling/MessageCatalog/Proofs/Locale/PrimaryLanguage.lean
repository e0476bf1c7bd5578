import MessageCatalog.LocaleCode
import MessageCatalog.Proofs.Locale.LanguageTag
import MessageCatalog.Proofs.Text.Utf8

/-!
Primary languages. How much of a code is kept is measured on the language in its normal form, which
takes up as many bytes as the first subtag does. So it is that subtag which is kept, in the letters
of the code, and it is a language of its own that has nothing left to be cut off.
-/

namespace MessageCatalog

namespace LanguageTag

variable {text language : List Char} {further : List (List Char)} {tag : LanguageTag}

theorem length_of_isLanguage (proper : isLanguage language = true) :
    language.length ∈ [2, 3, 5, 6, 7, 8] := by
  simp only [isLanguage, Bool.and_eq_true, Bool.or_eq_true, beq_iff_eq, decide_eq_true_eq] at proper
  have length := proper.2
  simp only [List.mem_cons, List.not_mem_nil, or_false]
  omega

theorem utf8Size_of_ascii {c : Char} (ascii : c.toNat < 128) : c.utf8Size = 1 := by
  apply Char.utf8Size_eq_one_iff.mpr
  rw [UInt32.le_iff_toNat_le]
  exact Nat.le_of_lt_succ ascii

theorem ascii_toLower {c : Char} (ascii : c.toNat < 128) : c.toLower.toNat < 128 := by
  unfold Char.toLower
  split
  · next upper =>
      have small : c.val.toNat ≤ 90 := UInt32.le_iff_toNat_le.mp upper.2
      have distance : ('a'.val - 'A'.val).toNat = 32 := rfl
      change (c.val + ('a'.val - 'A'.val)).toNat < 128
      rw [UInt32.toNat_add]
      omega
  · exact ascii

/-- In ASCII a letter takes up one byte in either case. -/
theorem byteSize_map_toLower (ascii : ∀ c ∈ text, c.toNat < 128) :
    Text.byteSize (text.map Char.toLower) = Text.byteSize text := by
  induction text with
  | nil => rfl
  | cons c rest ih =>
      obtain ⟨first, later⟩ := List.forall_mem_cons.mp ascii
      rw [List.map_cons, Text.byteSize, Text.byteSize, ih later,
        utf8Size_of_ascii (ascii_toLower first), utf8Size_of_ascii first]

theorem nil_not_mem_of_isTag (isTag : IsTag text language further) : [] ∉ further := by
  obtain ⟨_, _, script, region, variants, rfl, scripts, regions, all⟩ := isTag
  simp only [List.mem_append, Option.mem_toList, not_or]
  refine ⟨⟨?_, ?_⟩, ?_⟩
  · exact fun empty => absurd (scripts [] empty) (by decide)
  · exact fun empty => absurd (regions [] empty) (by decide)
  · exact fun empty => absurd (all [] empty) (by decide)

theorem isPrefix_of_isTag (isTag : IsTag text language further) : language <+: text := by
  rcases Text.parts_eq_cons isTag.1 with ⟨rfl, _⟩ | ⟨separator, rest, _, rfl, _⟩
  · exact List.prefix_rfl
  · exact List.prefix_append language _

theorem exists_rest_of_isTag (isTag : IsTag text language further) (more : further ≠ []) :
    ∃ separator rest, isSeparator separator = true ∧ rest ≠ [] ∧
      text = language ++ separator :: rest := by
  rcases Text.parts_eq_cons isTag.1 with ⟨_, rfl⟩ | ⟨separator, rest, separates, rfl, later⟩
  · exact absurd rfl more
  · refine ⟨separator, rest, separates, ?_, rfl⟩
    rintro rfl
    exact nil_not_mem_of_isTag isTag (later ▸ List.mem_singleton_self [])

/-- The bytes of the language in its normal form are those of the first subtag. -/
theorem startOfSize?_of_parse? (parsed : parse? text = some tag) :
    ∃ language further, IsTag text language further ∧ (tag.hasSubtags = true ↔ further ≠ []) ∧
      Text.startOfSize? (Text.byteSize tag.languageText) text = some language := by
  obtain ⟨language, further, isTag, normal, bears⟩ := of_parse? parsed
  refine ⟨language, further, isTag, bears, Text.startOfSize?_eq_some_iff.mpr ?_⟩
  rw [normal, byteSize_map_toLower (ascii_of_isLanguage isTag.2.1)]
  exact ⟨isPrefix_of_isTag isTag, rfl⟩

theorem subtags_of_isLanguage (proper : isLanguage language = true) :
    subtags language = [language] := by
  apply Text.parts_of_plain
  intro c member
  have letter := letters_of_isLanguage proper c member
  rw [Bool.eq_false_iff]
  intro separates
  simp only [isSeparator, Bool.or_eq_true, beq_iff_eq] at separates
  rcases separates with rfl | rfl <;> exact absurd letter (by decide)

end LanguageTag

namespace LocaleCode

open LanguageTag

theorem primaryLanguage?_eq_some_iff {code primary : LocaleCode} :
    code.primaryLanguage? = some primary ↔
      ∃ further, further ≠ [] ∧ IsTag code.text.toList primary.text.toList further := by
  unfold primaryLanguage?
  constructor
  · intro found
    split at found
    · next tag parsed =>
        obtain ⟨language, further, isTag, bears, start⟩ := startOfSize?_of_parse? parsed
        split at found
        · next more =>
            rw [start] at found
            cases found
            exact ⟨further, bears.mp more, by simpa using isTag⟩
        · cases found
    · cases found
  · rintro ⟨further, more, isTag⟩
    obtain ⟨tag, parsed⟩ := exists_parse? isTag
    obtain ⟨language, others, own, bears, start⟩ := startOfSize?_of_parse? parsed
    obtain ⟨rfl, rfl⟩ := List.cons.inj (own.1.symm.trans isTag.1)
    simp [parsed, bears.mpr more, start]

theorem primaryLanguage?_of_isLanguage {language : LocaleCode}
    (proper : isLanguage language.text.toList = true) : language.primaryLanguage? = none := by
  rw [Option.eq_none_iff_forall_ne_some]
  intro primary found
  obtain ⟨further, more, isTag⟩ := primaryLanguage?_eq_some_iff.mp found
  obtain ⟨_, rfl⟩ := List.cons.inj (isTag.1.symm.trans (subtags_of_isLanguage proper))
  exact more rfl

theorem isSome_primaryLanguage?_iff {code : LocaleCode} :
    code.primaryLanguage?.isSome = true ↔
      ∃ language further, further ≠ [] ∧ IsTag code.text.toList language further := by
  rw [Option.isSome_iff_exists]
  constructor
  · rintro ⟨primary, found⟩
    exact ⟨primary.text.toList, primaryLanguage?_eq_some_iff.mp found⟩
  · rintro ⟨language, further, more, isTag⟩
    exact ⟨⟨String.ofList language⟩,
      primaryLanguage?_eq_some_iff.mpr ⟨further, more, by simpa using isTag⟩⟩

/-- A primary language is what the code begins with, in the same letters, up to a separator that has
something behind it. It is a language and has no primary language again. The codes that have one are
the tags with more than a language; none of them goes beyond ASCII. Whatever tag a code is read as,
the bytes of its language end at the end of a character of the code. -/
theorem primaryLanguage?_stands_first (code : LocaleCode) :
    (∀ primary, code.primaryLanguage? = some primary →
      (∃ separator rest, (separator = '-' ∨ separator = '_') ∧ rest ≠ [] ∧
        code.text.toList = primary.text.toList ++ separator :: rest) ∧
      (∀ c ∈ primary.text.toList, isAsciiLetter c = true) ∧
      primary.text.toList.length ∈ [2, 3, 5, 6, 7, 8] ∧
      primary.primaryLanguage? = none) ∧
    (code.primaryLanguage?.isSome = true ↔
      ∃ language further, further ≠ [] ∧ IsTag code.text.toList language further) ∧
    ((∃ c ∈ code.text.toList, 128 ≤ c.toNat) → code.primaryLanguage? = none) ∧
    ∀ tag, LanguageTag.parse? code.text.toList = some tag →
      ∃ start, Text.startOfSize? (Text.byteSize tag.languageText) code.text.toList = some start := by
  refine ⟨?first, isSome_primaryLanguage?_iff, ?foreign, ?slice⟩
  case first =>
    intro primary found
    obtain ⟨further, more, isTag⟩ := primaryLanguage?_eq_some_iff.mp found
    obtain ⟨separator, rest, separates, nonempty, whole⟩ := exists_rest_of_isTag isTag more
    refine ⟨⟨separator, rest, by simpa [isSeparator] using separates, nonempty, whole⟩,
      letters_of_isLanguage isTag.2.1, length_of_isLanguage isTag.2.1,
      primaryLanguage?_of_isLanguage isTag.2.1⟩
  case foreign =>
    rintro ⟨c, member, foreign⟩
    rw [Option.eq_none_iff_forall_ne_some]
    intro primary found
    obtain ⟨further, _, isTag⟩ := primaryLanguage?_eq_some_iff.mp found
    exact absurd (isTag.ascii c member) (Nat.not_lt_of_le foreign)
  case slice =>
    intro tag parsed
    obtain ⟨language, _, _, _, start⟩ := startOfSize?_of_parse? parsed
    exact ⟨language, start⟩

/-- The language is left open, and four characters with marks among them are a variant. -/
theorem primaryLanguage?_stands_first_in_open_language :
    let code : LocaleCode := ⟨"Und_Latn-1!x!"⟩
    code.primaryLanguage? = some ⟨"Und"⟩ ∧ (⟨"Und"⟩ : LocaleCode).primaryLanguage? = none ∧
      (⟨"Und_Latn-1!é!"⟩ : LocaleCode).primaryLanguage? = none ∧
      ∃ tag, LanguageTag.parse? code.text.toList = some tag ∧ tag.language = none ∧
        ∃ start, Text.startOfSize? (Text.byteSize tag.languageText) code.text.toList =
          some start := by
  intro code
  have found : code.primaryLanguage? = some ⟨"Und"⟩ := by decide
  obtain ⟨first, _, _, slice⟩ := primaryLanguage?_stands_first code
  obtain ⟨_, _, foreign, _⟩ := primaryLanguage?_stands_first ⟨"Und_Latn-1!é!"⟩
  obtain ⟨_, _, _, bare⟩ := first ⟨"Und"⟩ found
  have parsed : LanguageTag.parse? code.text.toList =
      some ⟨none, some "Latn".toList, none, ["1!x!".toList]⟩ := by decide
  exact ⟨found, bare, foreign ⟨'é', by decide, by decide⟩, _, parsed, rfl, slice _ parsed⟩

end LocaleCode

end MessageCatalog
